import Hpvc.ExecuterTeleports

/-! Which replies the actor reads. The poller watches every contacted target, but the
actor knows only the newest: a reply of any other sends it to the pipe, where it waits
for a request. -/
namespace Hpvc.Executer

/-- A request whose target the actor can resolve when it reads it. -/
def Resolvable (s : State) : Event → Prop
  | .request vmName target => (resolve s.metadatas vmName target).isSome
  | _ => True

/-- What should become of a ready reply: it is read, and the teleport is that of the request
the target was contacted for. The actor does not go on to the pipe. -/
structure Served (hostIp : String) (s : State) (past : List Event) (contact : Nat) (mid next : State) :
    Prop where
  read : contact ∈ next.answered
  polls : next.mode ≠ .receiving
  teleported : ∃ started, next.teleports = mid.teleports ++ [started] ∧ started.contact = contact ∧
    ContactedFor hostIp s past contact started.vmName started.targetIp

/-- A ready reply comes on a socket the poller returns, in the course of a run. -/
structure ReplyAt (hostIp : String) (s : State) (events past : List Event) (contact : Nat)
    (mid next : State) : Prop where
  during : ∃ text session completed rest, saysReady text = true ∧
    events = past ++ .reply contact text session completed :: rest ∧
    step hostIp mid (.reply contact text session completed) = some next
  before : Runs.run (step hostIp) s past = some mid

/-- Every ready reply the poller returns is served. -/
def AllServed (hostIp : String) (s : State) (events : List Event) : Prop :=
  ∀ past contact mid next, ReplyAt hostIp s events past contact mid next →
    Served hostIp s past contact mid next

/-- Every ready reply comes before any later target is contacted. -/
def RepliesOfNewest (hostIp : String) (s : State) (events : List Event) : Prop :=
  ∀ past contact mid next, ReplyAt hostIp s events past contact mid next →
    mid.contacts.length = contact + 1

/-- What the teleport branch leaves alone. -/
theorem teleport_answered (hostIp : String) (s : State) (contact session : Nat) (completed : Bool) :
    (teleport hostIp s contact session completed).answered = s.answered := by
  unfold teleport
  split <;> cases completed <;> rfl

theorem teleport_mode (hostIp : String) (s : State) (contact session : Nat) (completed : Bool) :
    (teleport hostIp s contact session completed).mode =
      if completed then s.mode else .exited := by
  unfold teleport
  split <;> cases completed <;> rfl

/-- In a run whose requests all have an address, so has the last one. -/
theorem lastResolved_of_resolvable {hostIp : String} {s : State} {past : List Event}
    (resolvable : Runs.Each (step hostIp) s past Resolvable) : LastResolved hostIp s past :=
  fun before vmName target after mid split _ reached =>
    resolvable before (.request vmName target) after mid split reached

/-- A reply of the newest contact that comes through is handled. -/
theorem reply_handled {hostIp : String} {s next : State} {contact session : Nat} {text : String}
    {completed : Bool} (wired : Wired s) (newest : s.contacts.length = contact + 1)
    (ready : saysReady text = true)
    (taken : step hostIp s (.reply contact text session completed) = some next) :
    Handled s contact text := by
  have connected : s.sender ≠ none := wired.connected (List.ne_nil_of_length_pos (by omega))
  obtain ⟨k, is⟩ := Option.ne_none_iff_exists'.mp connected
  have same : k = contact := by
    have := wired.sender k is
    omega
  exact taken_handled (same ▸ is) ready taken

/-- In every run of requests with addresses and replies: all ready replies are served
exactly if each comes from the target contacted last. -/
theorem replies_served_iff (hostIp : String) (metadatas : List VMMetadata) (vmName targetIp : String)
    (events : List Event)
    (resolvable : Runs.Each (step hostIp) (start metadatas vmName targetIp) events Resolvable) :
    AllServed hostIp (start metadatas vmName targetIp) events ↔
      RepliesOfNewest hostIp (start metadatas vmName targetIp) events := by
  have wired := start_wired metadatas vmName targetIp
  constructor
  · intro served past contact mid next reply
    have good := run_wired wired reply.before
    have fine := served past contact mid next reply
    obtain ⟨started, log, _⟩ := fine.teleported
    obtain ⟨text, session, completed, rest, _, _, taken⟩ := reply.during
    rcases reply_cases taken with ⟨handled, _⟩ | rfl | rfl
    · exact (good.sender contact handled.2.1).symm
    · simp at log
    · exact absurd rfl fine.polls
  · intro newest past contact mid next reply
    obtain ⟨text, session, completed, rest, ready, split, taken⟩ := reply.during
    have good := run_wired wired reply.before
    have last := newest past contact mid next reply
    have handled := reply_handled good last ready taken
    obtain ⟨after, started, is, log, number, vm, address⟩ :=
      handled_starts hostIp good handled session completed
    cases is.symm.trans taken
    have agreeing : Agreeing mid := by
      have resolved := lastResolved_of_resolvable (Runs.each_of_append (split ▸ resolvable))
      exact (run_agreeing wired rfl reply.before (List.ne_nil_of_length_pos (by omega))).mpr resolved
    rcases reply_cases taken with ⟨_, rfl⟩ | rfl | rfl
    · refine ⟨by simp [teleport_answered], ?_, started, log, number, ?_⟩
      · rw [teleport_mode]
        split
        · simp [handled.1]
        · simp
      · rw [contactedFor_iff rfl reply.before,vm,address,← agreeing,List.getLast?_eq_getElem?,last]
        rfl
    · simp at log
    · simp at log

/-- Two targets are contacted, and the first one is ready first. -/
def firstIsReady : List Event :=
  [.request "vm1" "10.0.0.2", .request "vm2" "10.0.0.3", .reply 0 "2" 7 true]

/-- The actor leaves the reply unread and waits for the next request. -/
theorem reply_left_unread :
    Runs.Each (step "10.0.0.1") (start [] "" "") firstIsReady Resolvable ∧
    (∃ final, Runs.run (step "10.0.0.1") (start [] "" "") firstIsReady = some final ∧
      final.mode = .receiving ∧ final.answered = [] ∧ final.teleports = []) ∧
    ¬ AllServed "10.0.0.1" (start [] "" "") firstIsReady := by
  obtain ⟨mid, before⟩ : ∃ mid, Runs.run (step "10.0.0.1") (start [] "" "")
      [.request "vm1" "10.0.0.2", .request "vm2" "10.0.0.3"] = some mid := ⟨_, rfl⟩
  refine ⟨?_, ⟨_, rfl, rfl, rfl, rfl⟩, fun served => ?_⟩
  · refine Runs.each_cons.mpr ⟨by simp [Resolvable,resolve], fun next taken => ?_⟩
    refine Runs.each_cons.mpr ⟨by simp [Resolvable,resolve], fun next taken => ?_⟩
    exact Runs.each_cons.mpr ⟨trivial, fun _ _ => Runs.each_nil _ _ _⟩
  · have reply : ReplyAt "10.0.0.1" (start [] "" "") firstIsReady
        [.request "vm1" "10.0.0.2", .request "vm2" "10.0.0.3"] 0 mid { mid with mode := .receiving } := by
      refine ⟨⟨"2", 7, true, [], by decide, rfl, ?_⟩, before⟩
      cases before
      rfl
    exact (served _ _ _ _ reply).polls rfl

/-- One request and its reply: the reply comes in time. -/
theorem replies_served_newest :
    AllServed "10.0.0.1" (start [] "" "") [.request "vm1" "10.0.0.2", .reply 0 "2" 7 true] := by
  refine (replies_served_iff "10.0.0.1" [] "" "" _ ?_).mpr ?_
  · refine Runs.each_cons.mpr ⟨by simp [Resolvable,resolve], fun next taken => ?_⟩
    exact Runs.each_cons.mpr ⟨trivial, fun _ _ => Runs.each_nil _ _ _⟩
  · intro past contact mid next reply
    obtain ⟨text, session, completed, rest, _, split, _⟩ := reply.during
    have before := reply.before
    rcases past with _ | ⟨event, _ | ⟨_, _⟩⟩
    · simp at split
    · simp only [List.cons_append,List.nil_append,List.cons.injEq,Event.reply.injEq] at split
      obtain ⟨rfl, ⟨rfl, _⟩, _⟩ := split
      cases before
      rfl
    · simp at split

end Hpvc.Executer
