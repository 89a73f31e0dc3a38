import Hpvc.Library.Runs
import Mathlib.Data.List.Basic
import Mathlib.Logic.Function.Basic

/-! The monitor's configuration: `_parse_yaml` reads keys and values in turn from the events of libyaml.
Bytes are characters here. A variable gets the bytes of a value; that no zero is put after them is not
seen here. -/
namespace Hpvc.Monitor

inductive YamlEvent where
  | scalar (value : List Char)
  | streamStart | documentStart | documentEnd | alias
  | sequenceStart | sequenceEnd | mappingStart | mappingEnd
  | streamEnd
  | noEvent
  deriving DecidableEq

/-- The variables that `key` can point to. -/
inductive Variable where
  | workingMode | serverIp | serverPort
  deriving DecidableEq

def Variable.key : Variable → List Char
  | .workingMode => "working_mode".toList
  | .serverIp => "server_ip".toList
  | .serverPort => "server_monitor_port".toList

def variableOf (text : List Char) : Option Variable :=
  if text = Variable.workingMode.key then some .workingMode
  else if text = Variable.serverIp.key then some .serverIp
  else if text = Variable.serverPort.key then some .serverPort
  else none

/-- What `strcmp` compares: the bytes before the first zero. -/
def cText (bytes : List Char) : List Char := bytes.takeWhile fun byte => byte.toNat != 0

/-- The variables of `_parse_yaml`, those that it fills, and what it has assigned to these. A `key` that
was never assigned is `none`. -/
structure Reading where
  isKey : Bool
  key : Option Variable
  values : Variable → Option (List Char)
  assigned : List (Variable × List Char)

def startReading (values : Variable → Option (List Char)) : Reading := ⟨false, none, values, []⟩

/-- A scalar. A key that is not known leaves `key` as it is; a value goes where `key` points, and there is
no saying where if it was never assigned. -/
def scalarTurn (s : Reading) (value : List Char) : Option Reading :=
  if s.isKey then s.key.map fun v => { s with
    isKey := false
    values := Function.update s.values v (some value)
    assigned := s.assigned ++ [(v, value)] }
  else some { s with
    isKey := true
    key := (variableOf (cText value)).or s.key }

def eventTurn (s : Reading) : YamlEvent → Option Reading
  | .scalar value => scalarTurn s value
  | _ => some s

/-- `while (1)`, with fuel for its calls of `yaml_parser_parse`. -/
def parseYaml (next : Nat → YamlEvent) : Nat → Nat → Reading → Option Reading
  | 0, _, _ => none
  | fuel + 1, call, s =>
    if next call = .streamEnd then some s
    else (eventTurn s (next call)).bind (parseYaml next fuel (call + 1))

/-- What libyaml delivers of a file: the events before the end of the stream, or those up to the call
that fails. -/
structure YamlFile where
  events : List YamlEvent
  wellFormed : Bool
  inside : .streamEnd ∉ events

/-- The event of a call. After the end of the stream, and after a failure, there is none. -/
def YamlFile.next (file : YamlFile) (call : Nat) : YamlEvent :=
  file.events[call]?.getD (if file.wellFormed && call == file.events.length then .streamEnd else .noEvent)

/-- The loop returns, with these values. -/
def Returns (file : YamlFile) (s final : Reading) : Prop := ∃ fuel, parseYaml file.next fuel 0 s = some final

def YamlEvent.scalarValue : YamlEvent → Option (List Char)
  | .scalar value => some value
  | _ => none

def scalars (events : List YamlEvent) : List (List Char) := events.filterMap YamlEvent.scalarValue

/-- More fuel does not change a result. -/
theorem parseYaml_more {next : Nat → YamlEvent} {fuel call : Nat} {s final : Reading}
    (result : parseYaml next fuel call s = some final) (extra : Nat) :
    parseYaml next (fuel + extra) call s = some final := by
  induction fuel generalizing call s with
  | zero => contradiction
  | succ fuel ih =>
    rw [Nat.succ_add_eq_add_succ,Nat.add_succ,parseYaml]
    rw [parseYaml] at result
    split
    next ends =>
      rw [if_pos ends] at result
      exact result
    next goes =>
      rw [if_neg goes] at result
      obtain ⟨mid, turned, later⟩ := Option.bind_eq_some_iff.mp result
      rw [turned,Option.bind_some]
      exact ih later

/-- The calls that deliver these events. -/
theorem parseYaml_events {next : Nat → YamlEvent} {events : List YamlEvent} (inside : .streamEnd ∉ events)
    (fuel : Nat) {call : Nat} (delivered : ∀ i event, events[i]? = some event → next (call + i) = event)
    (s : Reading) : parseYaml next (events.length + fuel) call s =
      (Runs.run eventTurn s events).bind (parseYaml next fuel (call + events.length)) := by
  induction events generalizing call s with
  | nil => simp
  | cons event rest ih =>
    obtain ⟨first, others⟩ := List.ne_and_not_mem_of_not_mem_cons inside
    have here : next call = event := delivered 0 event rfl
    have later : ∀ i event, rest[i]? = some event → next (call + 1 + i) = event := fun i event is => by
      rw [Nat.add_assoc,Nat.add_comm 1 i]
      exact delivered (i + 1) event is
    have count : (event :: rest).length + fuel = rest.length + fuel + 1 := by
      rw [List.length_cons]
      omega
    rw [count,parseYaml,here,if_neg (Ne.symm first),Runs.run_cons,Option.bind_assoc]
    congr 1
    funext mid
    rw [ih others later,List.length_cons,Nat.add_assoc call 1,Nat.add_comm 1]

/-- Without an end of the stream the loop goes on, whatever the fuel. -/
theorem parseYaml_forever {next : Nat → YamlEvent} {call : Nat} (never : ∀ i, next (call + i) = .noEvent)
    (fuel : Nat) (s : Reading) : parseYaml next fuel call s = none := by
  induction fuel generalizing call s with
  | zero => rfl
  | succ fuel ih =>
    have here : next call = .noEvent := never 0
    have later (i : Nat) : next (call + 1 + i) = .noEvent := by
      rw [Nat.add_assoc]
      exact never (1 + i)
    rw [parseYaml,here,if_neg (by decide)]
    exact ih later s

/-- The loop returns what the events make, where they come to an end. -/
theorem returns_iff {file : YamlFile} {s final : Reading} :
    Returns file s final ↔ file.wellFormed = true ∧ Runs.run eventTurn s file.events = some final := by
  have delivered : ∀ i event, file.events[i]? = some event → file.next (0 + i) = event := fun i event is => by
    rw [Nat.zero_add,YamlFile.next,is]
    rfl
  have run (fuel : Nat) := parseYaml_events file.inside fuel delivered s
  have past (i : Nat) : file.next (0 + file.events.length + i) =
      if file.wellFormed && i == 0 then .streamEnd else .noEvent := by
    rw [YamlFile.next,List.getElem?_eq_none (by omega)]
    simp
  cases whole : file.wellFormed with
  | false =>
    refine iff_of_false ?_ (by simp)
    rintro ⟨fuel, result⟩
    have more := parseYaml_more result file.events.length
    rw [Nat.add_comm,run] at more
    obtain ⟨mid, _, later⟩ := Option.bind_eq_some_iff.mp more
    rw [parseYaml_forever (fun i => by rw [past,whole]; rfl)] at later
    contradiction
  | true =>
    have ends (fuel : Nat) (mid : Reading) :
        parseYaml file.next (fuel + 1) (0 + file.events.length) mid = some mid := by
      have here : file.next (0 + file.events.length) = .streamEnd := by simpa [whole] using past 0
      rw [parseYaml,if_pos here]
    constructor
    · rintro ⟨fuel, result⟩
      have more := parseYaml_more result (file.events.length + 1)
      rw [show fuel + (file.events.length + 1) = file.events.length + (fuel + 1) by omega,run] at more
      obtain ⟨mid, reached, later⟩ := Option.bind_eq_some_iff.mp more
      cases (ends fuel mid).symm.trans later
      exact ⟨rfl, reached⟩
    · rintro ⟨_, reached⟩
      exact ⟨file.events.length + 1, by rw [run,reached,Option.bind_some,ends]⟩

/-- Only the scalars matter. -/
theorem run_scalars (s : Reading) (events : List YamlEvent) :
    Runs.run eventTurn s events = Runs.run scalarTurn s (scalars events) := by
  induction events generalizing s with
  | nil => rfl
  | cons event rest ih =>
    cases event with
    | scalar value =>
      have split : scalars (.scalar value :: rest) = value :: scalars rest := rfl
      rw [split,Runs.run_cons,Runs.run_cons]
      congr 1
      funext next
      exact ih next
    | _ => exact ih s

/-- Once `key` was assigned, a scalar can always be taken. -/
theorem scalarTurn_keyed {s : Reading} (assigned : s.key ≠ none) (value : List Char) :
    ∃ next, scalarTurn s value = some next ∧ next.key ≠ none := by
  obtain ⟨v, is⟩ := Option.ne_none_iff_exists'.mp assigned
  cases turn : s.isKey with
  | true => exact ⟨_, by simp [scalarTurn,turn,is]; rfl, by simp⟩
  | false => exact ⟨_, by simp only [scalarTurn,turn]; rfl, by simp [is]⟩

/-- The first key is known, or has no value. -/
def KeyFirst (texts : List (List Char)) : Prop :=
  ∀ key value rest, texts = key :: value :: rest → variableOf (cText key) ≠ none

theorem run_scalars_iff (values : Variable → Option (List Char)) (texts : List (List Char)) :
    (∃ final, Runs.run scalarTurn (startReading values) texts = some final) ↔ KeyFirst texts := by
  cases texts with
  | nil => exact iff_of_true ⟨_, rfl⟩ fun key value rest is => by contradiction
  | cons key others =>
    have first : scalarTurn (startReading values) key =
        some ⟨true, variableOf (cText key), values, []⟩ := by simp [scalarTurn,startReading]
    rw [Runs.run_cons,first,Option.bind_some]
    cases others with
    | nil => exact iff_of_true ⟨_, rfl⟩ fun key value rest is => by simp at is
    | cons value rest =>
      have known : KeyFirst (key :: value :: rest) ↔ variableOf (cText key) ≠ none := by
        constructor
        · exact fun all => all key value rest rfl
        · intro is key value rest same
          cases same
          exact is
      rw [known]
      constructor
      · rintro ⟨final, ran⟩ unknown
        rw [Runs.run_cons,scalarTurn,unknown] at ran
        contradiction
      · intro known
        obtain ⟨final, ran, _⟩ := Runs.run_total scalarTurn (fun s => s.key ≠ none) (fun _ => True)
          (fun s value keyed _ => scalarTurn_keyed keyed value)
          (s := ⟨true, variableOf (cText key), values, []⟩) known (value :: rest) (fun _ _ => trivial)
        exact ⟨final, ran⟩

/-- The loop comes to its end exactly for a well-formed file whose first key is known, or has no value. -/
theorem parse_returns_iff (file : YamlFile) (values : Variable → Option (List Char)) :
    (∃ final, Returns file (startReading values) final) ↔
      file.wellFormed = true ∧ KeyFirst (scalars file.events) := by
  rw [← run_scalars_iff values,← exists_and_left]
  exact exists_congr fun final => by rw [returns_iff,run_scalars]

/-- `server_ip: [`, the file ends inside the sequence. -/
def cutShort : YamlFile :=
  ⟨[.streamStart, .documentStart, .mappingStart, .scalar Variable.serverIp.key, .sequenceStart], false,
    by decide⟩

/-- Every event of it is read, and then the loop does not end. -/
theorem cutShort_forever :
    (Runs.run eventTurn (startReading fun _ => none) cutShort.events).isSome = true ∧
      ¬ ∃ final, Returns cutShort (startReading fun _ => none) final := by
  refine ⟨by decide, fun ⟨final, result⟩ => ?_⟩
  obtain ⟨whole, _⟩ := returns_iff.mp result
  contradiction

structure ConfigEntry where
  key : List Char
  value : List Char

def ConfigEntry.texts (entry : ConfigEntry) : List (List Char) := [entry.key, entry.value]

/-- A flat mapping: its keys and values come in the order of the document. -/
def flatMapping (entries : List ConfigEntry) : YamlFile :=
  ⟨[.streamStart, .documentStart, .mappingStart] ++ (entries.flatMap ConfigEntry.texts).map .scalar ++
    [.mappingEnd, .documentEnd], true, by simp⟩

/-- What an entry may write: the variable that has its key. -/
def ConfigEntry.own (entry : ConfigEntry) : Option (Variable × List Char) :=
  (variableOf entry.key).map fun v => (v, entry.value)

/-- The value of the last entry with the key of a variable. -/
def lastValue (entries : List ConfigEntry) (v : Variable) : Option (List Char) :=
  (entries.filter fun entry => entry.key = v.key).getLast?.map ConfigEntry.value

/-- Every variable has its last value, or the one it had before, and no other entry has written. -/
def HoldsLast (values : Variable → Option (List Char)) (entries : List ConfigEntry) (final : Reading) : Prop :=
  (∀ v, final.values v = (lastValue entries v).or (values v)) ∧
    final.assigned = entries.filterMap ConfigEntry.own

theorem variableOf_key (v : Variable) : variableOf v.key = some v := by cases v <;> decide

theorem cText_key (v : Variable) : cText v.key = v.key := by cases v <;> decide

theorem variableOf_eq_some {text : List Char} {v : Variable} : variableOf text = some v ↔ text = v.key := by
  constructor
  · intro is
    unfold variableOf at is
    split_ifs at is with mode ip port
    · cases is; exact mode
    · cases is; exact ip
    · cases is; exact port
  · rintro rfl
    exact variableOf_key v

theorem key_inj {v w : Variable} (same : v.key = w.key) : v = w :=
  Option.some.inj ((variableOf_key v).symm.trans (variableOf_eq_some.mpr same))

theorem scalars_flatMapping (entries : List ConfigEntry) :
    scalars (flatMapping entries).events = entries.flatMap ConfigEntry.texts := by
  have each (texts : List (List Char)) : scalars (texts.map .scalar) = texts := by
    simp [scalars,List.filterMap_map,Function.comp_def,YamlEvent.scalarValue]
  have split : scalars (flatMapping entries).events =
      scalars ((entries.flatMap ConfigEntry.texts).map .scalar) ++ [] := by
    simp only [scalars,flatMapping,List.filterMap_append]
    rfl
  rw [split,each,List.append_nil]

/-- The two scalars of an entry. -/
def entryTurn (s : Reading) (entry : ConfigEntry) : Option Reading :=
  ((variableOf (cText entry.key)).or s.key).map fun v =>
    ⟨false, some v, Function.update s.values v (some entry.value), s.assigned ++ [(v, entry.value)]⟩

theorem entryTurn_texts {s : Reading} (atKey : s.isKey = false) (entry : ConfigEntry) :
    Runs.run scalarTurn s entry.texts = entryTurn s entry := by
  simp only [ConfigEntry.texts,Runs.run_cons,Runs.run_nil,scalarTurn,atKey,entryTurn]
  cases (variableOf (cText entry.key)).or s.key <;> rfl

theorem run_entries {s : Reading} (atKey : s.isKey = false) (entries : List ConfigEntry) :
    Runs.run scalarTurn s (entries.flatMap ConfigEntry.texts) = Runs.run entryTurn s entries := by
  induction entries generalizing s with
  | nil => rfl
  | cons entry rest ih =>
    rw [List.flatMap_cons,Runs.run_append,entryTurn_texts atKey,Runs.run_cons]
    cases taken : entryTurn s entry with
    | none => rfl
    | some next =>
      obtain ⟨v, _, rfl⟩ := Option.map_eq_some_iff.mp taken
      exact ih rfl

theorem returns_entries_iff {entries : List ConfigEntry} {values : Variable → Option (List Char)}
    {final : Reading} : Returns (flatMapping entries) (startReading values) final ↔
      Runs.run entryTurn (startReading values) entries = some final := by
  rw [returns_iff,run_scalars,scalars_flatMapping,run_entries rfl]
  exact and_iff_right rfl

/-- Every entry writes, whatever its key. -/
theorem every_entry_writes {entries : List ConfigEntry} {values : Variable → Option (List Char)} {final : Reading}
    (ran : Runs.run entryTurn (startReading values) entries = some final) :
    final.assigned.length = entries.length := by
  refine Runs.run_history (fun past mid => mid.assigned.length = past.length) rfl ?_ ran
  intro past mid entry next _ soFar taken
  obtain ⟨v, _, rfl⟩ := Option.map_eq_some_iff.mp taken
  simp [soFar]

theorem lastValue_snoc (past : List ConfigEntry) (entry : ConfigEntry) (v : Variable) :
    lastValue (past ++ [entry]) v = if entry.key = v.key then some entry.value else lastValue past v := by
  simp only [lastValue,List.filter_append]
  split
  next own => simp [own]
  next other => simp [other]

theorem known_hold_last {entries : List ConfigEntry} {values : Variable → Option (List Char)} {final : Reading}
    (known : ∀ entry ∈ entries, ∃ v : Variable, entry.key = v.key)
    (ran : Runs.run entryTurn (startReading values) entries = some final) : HoldsLast values entries final := by
  refine Runs.run_history (fun past mid => (∀ entry ∈ past, ∃ v : Variable, entry.key = v.key) →
    HoldsLast values past mid) ?_ ?_ ran known
  · exact fun _ => ⟨fun v => rfl, rfl⟩
  · intro past mid entry next _ soFar taken known
    obtain ⟨held, wrote⟩ := soFar fun e member => known e (List.mem_append_left _ member)
    obtain ⟨v, own⟩ := known entry (by simp)
    obtain ⟨w, at_w, rfl⟩ := Option.map_eq_some_iff.mp taken
    rw [own,cText_key,variableOf_key,Option.some_or,Option.some.injEq] at at_w
    subst at_w
    refine ⟨fun u => ?_, ?_⟩
    · rw [lastValue_snoc,own]
      by_cases same : u = v
      · subst same
        simp
      · rw [if_neg fun is => same (key_inj is).symm,← held u]
        exact Function.update_of_ne same _ _
    · simp [wrote,ConfigEntry.own,own,variableOf_key]

/-- Every variable ends with its own last value, and no other entry writes, exactly where every key is
known. -/
theorem own_values_iff (entries : List ConfigEntry) (values : Variable → Option (List Char)) :
    (∃ final, Returns (flatMapping entries) (startReading values) final ∧ HoldsLast values entries final) ↔
      ∀ entry ∈ entries, ∃ v : Variable, entry.key = v.key := by
  constructor
  · rintro ⟨final, returned, _, wrote⟩ entry member
    have count := every_entry_writes (returns_entries_iff.mp returned)
    rw [wrote,List.filterMap_length_eq_length] at count
    obtain ⟨v, is⟩ := Option.isSome_iff_exists.mp (Option.isSome_map.symm.trans (count entry member))
    exact ⟨v, variableOf_eq_some.mp is⟩
  · intro known
    obtain ⟨final, ran, _⟩ := Runs.run_total entryTurn (fun _ => True)
      (fun entry => ∃ v : Variable, entry.key = v.key)
      (fun s entry _ ⟨v, own⟩ => ⟨_, by rw [entryTurn,own,cText_key,variableOf_key]; rfl, trivial⟩)
      trivial entries known
    exact ⟨final, returns_entries_iff.mpr ran, known_hold_last known ran⟩

/-- An address, and a key that the monitor does not know. -/
def strangeKey : List ConfigEntry :=
  [⟨Variable.serverIp.key, "10.0.0.1".toList⟩, ⟨"comment".toList, "rack 4".toList⟩]

/-- The value of the unknown key is taken for the address. -/
theorem strangeKey_overwrites :
    ((Runs.run eventTurn (startReading fun _ => none) (flatMapping strangeKey).events).map fun final =>
        final.values .serverIp) = some (some "rack 4".toList) ∧
      ¬ ∃ final, Returns (flatMapping strangeKey) (startReading fun _ => none) final ∧
        HoldsLast (fun _ => none) strangeKey final := by
  refine ⟨by decide, fun ⟨final, returned, held, _⟩ => ?_⟩
  have ran := returns_entries_iff.mp returned
  have is : final.values .serverIp = some "rack 4".toList := by
    cases ran
    decide
  rw [held] at is
  contradiction

end Hpvc.Monitor
