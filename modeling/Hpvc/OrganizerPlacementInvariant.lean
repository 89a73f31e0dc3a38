import Hpvc.OrganizerPlacement

/-! The tracked lists agree with the real placement: `launch_master` builds such a
state, and `migrate_vm` keeps it as long as its caller tested the target's size. -/
namespace Hpvc.Organizer

/-- Every VM is listed once, by the PM it is on; no entry is over-full. -/
structure Sound (p : Platform) (noVm : Nat) (s : Placement) : Prop where
  named : ∀ i < p.numberOfInvolvedHost, (s.dataOfPMs i).pmName = p.hosts[i]?
  capacity : ∀ i < p.numberOfInvolvedHost, (s.dataOfPMs i).numberOfVMs ≤ pmCapacity
  filed : Bins.Accurate (· < noVm) (· < p.numberOfInvolvedHost) s.pm
    fun i => (s.dataOfPMs i).live

theorem host_exists (p : Platform) {i : Nat} (bound : i ≤ p.numberOfInvolvedHost)
    (positive : 0 < p.numberOfInvolvedHost) : ∃ name, p.hosts[i]? = some name := by
  have inside : i < p.hosts.length := by simp only [Platform.numberOfInvolvedHost] at *; omega
  exact ⟨_, List.getElem?_eq_getElem inside⟩

/-- With distinct names the search by name finds the PM itself. -/
theorem findPM_home (p : Platform) (distinct : p.hosts.Nodup) (s : Placement) {home : Nat}
    {name : String} (is : p.hosts[home]? = some name) (l : List Nat)
    (named : ∀ i ∈ l, (s.dataOfPMs i).pmName = p.hosts[i]?) (inside : ∀ i ∈ l, i < p.hosts.length)
    (member : home ∈ l) : findPM s name l = some (some home) := by
  induction l with
  | nil => simp at member
  | cons i rest ih =>
    have bound := inside i List.mem_cons_self
    have here : (s.dataOfPMs i).pmName = some p.hosts[i] := by
      rw [named i List.mem_cons_self,List.getElem?_eq_getElem bound]
    simp only [findPM,here,Option.bind_some]
    by_cases same : p.hosts[i] = name
    · have equal : i = home :=
        (List.getElem?_inj bound distinct).mp ((List.getElem?_eq_getElem bound).trans (same ▸ is.symm))
      rw [if_pos same,equal]
    · rw [if_neg same]
      have other : home ≠ i := by
        rintro rfl
        exact same (Option.some.inj ((List.getElem?_eq_getElem bound).symm.trans is))
      exact ih (fun k hk => named k (List.mem_cons_of_mem _ hk))
        (fun k hk => inside k (List.mem_cons_of_mem _ hk))
        ((List.mem_cons.mp member).resolve_left other)

/-- What one `migrate_vm` does to an accurate placement, also when the target is the
PM the VM is on: there the deletion makes the room that the append takes. -/
theorem migrate_sound (p : Platform) (distinct : p.hosts.Nodup) {noVm : Nat} {s : Placement}
    (sound : Sound p noVm s) {v t : Nat} (hv : v < noVm) (ht : t < p.numberOfInvolvedHost)
    (free : (s.dataOfPMs t).numberOfVMs < pmCapacity) :
    ∃ next, migrateVm p s v t t = some next ∧ Sound p noVm next ∧
      next.pm = Function.update s.pm v t := by
  have hh : s.pm v < p.numberOfInvolvedHost := sound.filed.home_bin v hv
  obtain ⟨name, is⟩ := host_exists p (Nat.le_of_lt hh) (Nat.zero_lt_of_lt hh)
  have found : findPM s name (List.range p.numberOfInvolvedHost) = some (some (s.pm v)) := by
    refine findPM_home p distinct s is _ (fun i hi => sound.named i (List.mem_range.mp hi)) ?_
      (List.mem_range.mpr hh)
    intro i hi
    have := List.mem_range.mp hi
    simp only [Platform.numberOfInvolvedHost] at this
    omega
  have member : v ∈ (s.dataOfPMs (s.pm v)).live := (sound.filed.mem_iff hh).mpr ⟨hv,rfl⟩
  refine ⟨⟨Function.update (removeFromHome s (some (s.pm v)) v).dataOfPMs t
      (((removeFromHome s (some (s.pm v)) v).dataOfPMs t).push v), Function.update s.pm v t⟩,
    by simp [migrateVm,is,found,getData,ht], ⟨?_,?_,?_⟩, rfl⟩
  · intro i hi
    rw [← sound.named i hi,← removeFromHome_pmName member i]
    by_cases target : i = t
    · subst i; simp
    · simp [target]
  · intro i hi
    have old := sound.capacity i hi
    have removed := removeFromHome_numberOfVMs member i
    by_cases target : i = t
    · subst i
      simp only [Function.update_self,push_numberOfVMs]
      omega
    · simp only [Function.update_of_ne target]
      omega
  · apply sound.filed.move hv ht
    intro b hb x
    have counted := removeFromHome_count member b x
    by_cases target : t = b
    · subst b
      simp only [Function.update_self,live_push,List.count_append,true_and]
      rw [List.count_singleton]
      by_cases same : x = v
      · subst x; simp only [beq_self_eq_true,if_true] at counted ⊢; omega
      · simp only [beq_iff_eq,same,Ne.symm same,if_false] at counted ⊢; omega
    · simp only [Function.update_of_ne (Ne.symm target),target,false_and,if_false]
      omega

/-- The loop of `launch_master` after `i` VMs, `q` of them to a PM. -/
structure Launched (p : Platform) (q i : Nat) (s : Launch) : Prop where
  position : i = s.currentClusterHostCounter * q + s.j
  within : s.j ≤ q
  started : 0 < i → 0 < s.j
  host : s.host = s.currentClusterHostCounter
  named : ∀ k < p.numberOfInvolvedHost,
    (s.placement.dataOfPMs k).pmName = if k * q < i then p.hosts[k]? else none
  filled : ∀ k < p.numberOfInvolvedHost, (s.placement.dataOfPMs k).numberOfVMs = min q (i - k * q)
  filed : Bins.Accurate (· < i) (· < p.numberOfInvolvedHost) s.placement.pm
    fun k => (s.placement.dataOfPMs k).live

/-- `nextHost` leaves room on the current host. -/
theorem nextHost_launched {p : Platform} {q i : Nat} {s : Launch} (positive : 0 < q)
    (launched : Launched p q i s) :
    (nextHost q s).placement = s.placement ∧
      (nextHost q s).host = (nextHost q s).currentClusterHostCounter ∧
      i = (nextHost q s).currentClusterHostCounter * q + (nextHost q s).j ∧ (nextHost q s).j < q := by
  have position := launched.position
  have within := launched.within
  unfold nextHost
  split
  next full =>
    refine ⟨rfl,by simp [launched.host],?_,positive⟩
    have : s.j = q := by omega
    simp only [Nat.add_mul,Nat.one_mul]
    omega
  next room => exact ⟨rfl,launched.host,position,by omega⟩

/-- PMs before and after the one being filled are full and empty. -/
theorem other_multiple {q c j k i : Nat} (position : i = c * q + j) (room : j < q) (other : k ≠ c) :
    (k * q + q ≤ i) ∨ i + 1 ≤ k * q := by
  rcases Nat.lt_or_gt_of_ne other with before | after
  · left
    have := Nat.mul_le_mul_right q (Nat.succ_le_of_lt before)
    rw [Nat.succ_mul] at this
    omega
  · right
    have := Nat.mul_le_mul_right q (Nat.succ_le_of_lt after)
    rw [Nat.succ_mul] at this
    omega

theorem launchVm_launched {p : Platform} {q i : Nat} {s : Launch} (positive : 0 < q)
    (launched : Launched p q i s) (bound : i < p.numberOfInvolvedHost * q) :
    ∃ next, launchVm p q s i = some next ∧ Launched p q (i + 1) next := by
  obtain ⟨same, host, position, room⟩ := nextHost_launched positive launched
  generalize hc : (nextHost q s).currentClusterHostCounter = c at *
  have inside : c < p.numberOfInvolvedHost := by
    by_contra outside
    have := Nat.mul_le_mul_right q (Nat.le_of_not_lt outside)
    omega
  obtain ⟨name, is⟩ := host_exists p (Nat.le_of_lt inside) (Nat.zero_lt_of_lt inside)
  refine ⟨_, by simp [launchVm,hc,host,is,getData,inside]; rfl, ?_⟩
  have filled := launched.filled c inside
  constructor
  · simp only; omega
  · exact room
  · intro _; exact Nat.succ_pos _
  · simp
  · intro k hk
    have old := launched.named k hk
    by_cases here : k = c
    · subst k
      simp [is,show c * q < i + 1 by omega]
    · simp only [same,Function.update_of_ne here,old]
      rcases other_multiple position room here with full | empty
      · rw [if_pos (by omega),if_pos (by omega)]
      · rw [if_neg (by omega),if_neg (by omega)]
  · intro k hk
    have old := launched.filled k hk
    by_cases here : k = c
    · subst k
      simp only [same,Function.update_self,setName_numberOfVMs,push_numberOfVMs,filled]
      omega
    · simp only [same,Function.update_of_ne here,old]
      rcases other_multiple position room here with full | empty <;> omega
  · have added := launched.filed.add (v := i) (t := c)
      (fun k => (Function.update s.placement.dataOfPMs c
        (((s.placement.dataOfPMs c).push i).setName name) k).live) (Nat.lt_irrefl i) inside ?_
    · have items : (fun x => x < i ∨ x = i) = (· < i + 1) := by funext x; simp; omega
      simpa [same,hc,host,items] using added
    · intro k _
      by_cases here : k = c
      · subst k; simp
      · simp [here]

theorem launch_run (p : Platform) {q : Nat} (positive : 0 < q) (i : Nat)
    (bound : i ≤ p.numberOfInvolvedHost * q) :
    ∃ s, Runs.run (launchVm p q) ⟨0, 0, 0, ⟨fun _ => .zero, fun _ => 0⟩⟩ (List.range i) = some s ∧
      Launched p q i s := by
  induction i with
  | zero =>
    refine ⟨_, rfl, ⟨by simp, Nat.zero_le _, by simp, rfl, ?_, ?_, ⟨by simp, by simp, by simp⟩⟩⟩
    · intro k _; simp [DataOfPM.zero]
    · intro k _; simp [DataOfPM.zero]
  | succ i ih =>
    obtain ⟨s, reached, launched⟩ := ih (by omega)
    obtain ⟨next, taken, after⟩ := launchVm_launched positive launched (by omega)
    exact ⟨next, by rw [List.range_succ,Runs.run_snoc,reached]; exact taken, after⟩

/-- `launch_master` for cluster 0 with `q` VMs to a PM returns an accurate placement. -/
theorem launch_sound (p : Platform) {q : Nat} (positive : 0 < q) (fits : q ≤ pmCapacity)
    (involved : 0 < p.numberOfInvolvedHost) :
    ∃ s, launchMaster p (q * p.numberOfInvolvedHost) 0 = some s ∧
      Sound p (q * p.numberOfInvolvedHost) s := by
  obtain ⟨s, reached, launched⟩ := launch_run p positive _ (Nat.le_refl _)
  rw [Nat.mul_comm] at reached launched
  have total : 0 < q * p.numberOfInvolvedHost := Nat.mul_pos positive involved
  have last : s.host < p.numberOfInvolvedHost := by
    by_contra outside
    have past := Nat.mul_le_mul_right q (launched.host ▸ Nat.le_of_not_lt outside)
    have position := launched.position
    have started := launched.started total
    rw [Nat.mul_comm] at past
    omega
  obtain ⟨name, master⟩ := host_exists p last involved
  refine ⟨s.placement, ?_, ⟨?_, ?_, launched.filed⟩⟩
  · rw [launchMaster,if_neg (Nat.pos_iff_ne_zero.mp involved),Nat.mul_div_cancel _ involved,Nat.zero_mul,reached]
    simp [master]
  · intro i hi
    have below : i * q < q * p.numberOfInvolvedHost := by
      rw [Nat.mul_comm]; exact (Nat.mul_lt_mul_left positive).mpr hi
    rw [launched.named i hi,if_pos below]
  · intro i hi
    rw [launched.filled i hi]
    omega

end Hpvc.Organizer
