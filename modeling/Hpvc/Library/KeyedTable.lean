import Mathlib.Data.List.Induction
import Mathlib.Data.List.Nodup

/-! A table filled from a sequence of records: the first record of a key makes an entry
at the end, every later one updates it. The entry of a key is then a fold over the
records of that key, however they are mixed with others. -/
namespace KeyedTable

variable {κ ρ σ : Type*} [DecidableEq κ]

/-- Update the entry of the record's key, or append one. -/
def put (key : ρ → κ) (first : ρ → σ) (again : σ → ρ → σ) : List (κ × σ) → ρ → List (κ × σ)
  | [], r => [(key r, first r)]
  | (k, s) :: rest, r =>
    if k = key r then (k, again s r) :: rest else (k, s) :: put key first again rest r

def table (key : ρ → κ) (first : ρ → σ) (again : σ → ρ → σ) (records : List ρ) : List (κ × σ) :=
  records.foldl (put key first again) []

/-- The keys in the order in which they come first. -/
def firsts (key : ρ → κ) (records : List ρ) : List κ :=
  records.foldl (fun seen r => if key r ∈ seen then seen else seen ++ [key r]) []

variable (key : ρ → κ) (first : ρ → σ) (again : σ → ρ → σ)

theorem firsts_snoc (records : List ρ) (r : ρ) : firsts key (records ++ [r]) =
    if key r ∈ firsts key records then firsts key records else firsts key records ++ [key r] := by
  rw [firsts,List.foldl_append]
  rfl

theorem mem_firsts {records : List ρ} {k : κ} : k ∈ firsts key records ↔ ∃ r ∈ records, key r = k := by
  induction records using List.reverseRecOn with
  | nil => simp [firsts]
  | append_singleton records r ih =>
    have grown : (∃ x ∈ records ++ [r], key x = k) ↔ k ∈ firsts key records ∨ key r = k := by
      rw [ih]
      simp [or_and_right,exists_or]
    rw [grown,firsts_snoc]
    split
    next seen => exact ⟨.inl, fun h => h.elim id fun is => is ▸ seen⟩
    next => simp [eq_comm]

theorem firsts_nodup (records : List ρ) : (firsts key records).Nodup := by
  induction records using List.reverseRecOn with
  | nil => exact List.nodup_nil
  | append_singleton records r ih =>
    rw [firsts_snoc]
    split
    · exact ih
    next fresh => exact ih.append (List.nodup_singleton _) (by simpa using fresh)

theorem put_fresh {t : List (κ × σ)} {r : ρ} (fresh : ∀ entry ∈ t, entry.1 ≠ key r) :
    put key first again t r = t ++ [(key r, first r)] := by
  induction t with
  | nil => rfl
  | cons entry rest ih =>
    rw [put,if_neg (fresh entry List.mem_cons_self),ih fun e he => fresh e (List.mem_cons_of_mem _ he)]
    rfl

theorem put_found {before after : List (κ × σ)} {r : ρ} {k : κ} {s : σ} (is : k = key r)
    (fresh : ∀ entry ∈ before, entry.1 ≠ key r) :
    put key first again (before ++ (k, s) :: after) r = before ++ (k, again s r) :: after := by
  induction before with
  | nil => simp [put,is]
  | cons entry rest ih =>
    rw [List.cons_append,put,if_neg (fresh entry List.mem_cons_self),
      ih fun e he => fresh e (List.mem_cons_of_mem _ he)]
    rfl

theorem put_keys (t : List (κ × σ)) (r : ρ) : (put key first again t r).map Prod.fst =
    if key r ∈ t.map Prod.fst then t.map Prod.fst else t.map Prod.fst ++ [key r] := by
  induction t with
  | nil => simp [put]
  | cons entry rest ih =>
    obtain ⟨k, s⟩ := entry
    simp only [put]
    by_cases same : k = key r
    · simp [same]
    · rw [if_neg same,List.map_cons,ih]
      simp only [List.map_cons,List.mem_cons,Ne.symm same,false_or]
      split <;> rfl

theorem table_keys (records : List ρ) :
    (table key first again records).map Prod.fst = firsts key records := by
  induction records using List.reverseRecOn with
  | nil => rfl
  | append_singleton records r ih =>
    rw [firsts_snoc,← ih,← put_keys key first again]
    simp [table]

/-- The entries after a record: the record's own, made or updated, and the others. -/
theorem mem_put {t : List (κ × σ)} (distinct : (t.map Prod.fst).Nodup) {r : ρ} {k : κ} {s : σ}
    (member : (k, s) ∈ put key first again t r) :
    (k ≠ key r ∧ (k, s) ∈ t) ∨ (k = key r ∧ ∃ old, (k, old) ∈ t ∧ s = again old r) ∨
      (k = key r ∧ k ∉ t.map Prod.fst ∧ s = first r) := by
  induction t with
  | nil =>
    simp only [put,List.mem_singleton,Prod.mk.injEq] at member
    exact .inr (.inr ⟨member.1, by simp, member.2⟩)
  | cons entry rest ih =>
    obtain ⟨j, old⟩ := entry
    obtain ⟨absent, distinct⟩ := List.nodup_cons.mp distinct
    simp only [put] at member
    split at member
    next same =>
      rcases List.mem_cons.mp member with here | later
      · cases here
        exact .inr (.inl ⟨same, old, List.mem_cons_self, rfl⟩)
      · refine .inl ⟨?_, List.mem_cons_of_mem _ later⟩
        rintro rfl
        exact absent (List.mem_map.mpr ⟨_, later, same.symm⟩)
    next differs =>
      rcases List.mem_cons.mp member with here | later
      · cases here
        exact .inl ⟨differs, List.mem_cons_self⟩
      · rcases ih distinct later with ⟨other, old⟩ | ⟨same, e, old, is⟩ | ⟨same, fresh, is⟩
        · exact .inl ⟨other, List.mem_cons_of_mem _ old⟩
        · exact .inr (.inl ⟨same, e, List.mem_cons_of_mem _ old, is⟩)
        · refine .inr (.inr ⟨same, ?_, is⟩)
          simp only [List.map_cons,List.mem_cons,not_or]
          exact ⟨fun equal => differs (equal ▸ same), fresh⟩

/-- An entry is the fold over the records of its key. -/
theorem table_entry (records : List ρ) {k : κ} {s : σ} (member : (k, s) ∈ table key first again records) :
    ∃ r later, records.filter (fun x => key x = k) = r :: later ∧ s = later.foldl again (first r) := by
  induction records using List.reverseRecOn generalizing k s with
  | nil => simp [table] at member
  | append_singleton records r ih =>
    have distinct : ((table key first again records).map Prod.fst).Nodup := by
      rw [table_keys]
      exact firsts_nodup key records
    have last : (k, s) ∈ put key first again (table key first again records) r := by
      simpa [table] using member
    rw [List.filter_append]
    rcases mem_put key first again distinct last with ⟨other, old⟩ | ⟨rfl, e, old, is⟩ | ⟨rfl, fresh, is⟩
    · obtain ⟨r', later, own, folded⟩ := ih old
      exact ⟨r', later, by simp [own,Ne.symm other], folded⟩
    · obtain ⟨r', later, own, folded⟩ := ih old
      refine ⟨r', later ++ [r], by simp [own], ?_⟩
      rw [is,folded,List.foldl_append]
      rfl
    · have none : records.filter (fun x => key x = key r) = [] := by
        rw [table_keys,mem_firsts] at fresh
        apply List.filter_eq_nil_iff.mpr
        intro x hx is
        exact fresh ⟨x, hx, by simpa using is⟩
      exact ⟨r, [], by simp [none], by simp [is]⟩

end KeyedTable
