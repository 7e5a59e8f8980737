/-
  The capture hand-off (src/mcp_capture.c): handler calls on connection threads,
  one request slot, and the compositor.

  `req->lock` makes each function body one step, and a handler call is split at
  its wait: it submits, and later wakes up or times out. `calls` lists the
  handler calls in the order of their submissions. What a call was answered by
  is tracked beside the code, which has no request identity: `owner` is the call
  whose submission is in the slot, and `answered` says that a poll returned a
  call's path and mode for its submission and the matching complete reported
  success.
-/
import DisplayxrMcp.Lib.CStr
import DisplayxrMcp.Lib.Lts

namespace DisplayxrMcp.Capture

open Lib Lts

/-- `MCP_CAPTURE_PATH_MAX`. -/
abbrev pathMax : Nat := 256

/-- `struct mcp_capture_request`. -/
structure Request where
  path : CStr
  mode : UInt32
  pending : Bool
  done : Bool
  success : Bool

/-- `mcp_capture_init`. -/
def Request.init : Request := ⟨[], 0, false, false, false⟩

namespace Request

/-- The start of `mcp_capture_blocking_handler`. -/
def submit (_ : Request) (path : CStr) (mode : UInt32) : Request :=
  ⟨snprintf pathMax path, mode, true, false, false⟩

/-- `mcp_capture_blocking_handler` after a wait that did not time out: its result, if it
    leaves the loop. -/
def wake (r : Request) : Option Bool × Request :=
  if r.done then (some r.success, { r with pending := false }) else (none, r)

/-- `mcp_capture_blocking_handler` after a wait that timed out. -/
def timeOut (r : Request) : Bool × Request := (false, { r with pending := false })

/-- `mcp_capture_poll`. -/
def poll (r : Request) : Option (CStr × UInt32) :=
  if r.pending && !r.done then some (r.path, r.mode) else none

/-- `mcp_capture_complete`. -/
def complete (r : Request) (success : Bool) : Request := { r with success := success, done := true }

end Request

/-- A handler call. -/
inductive Call where
  | waiting (path : CStr) (mode : UInt32) (answered : Bool)
  | returned (ok : Bool) (answered : Bool)
  deriving DecidableEq

def Call.isWaiting : Call → Bool
  | .waiting _ _ _ => true
  | .returned _ _ => false

/-- A successful poll that is to be completed: what it returned, and the call that had
    submitted it. -/
structure Polled where
  path : CStr
  mode : UInt32
  call : Option Nat
  deriving DecidableEq

structure State where
  req : Request
  calls : List Call
  owner : Option Nat
  polled : Option Polled

inductive Act where
  | submit (path : Option CStr) (mode : UInt32)
  | wake (c : Nat)
  | timeOut (c : Nat)
  | poll
  | complete (success : Bool)
  deriving DecidableEq

/-- A completion answers the call that submitted what was polled, if it still waits. -/
def answer (p : Polled) (success : Bool) (c : Nat) : Call → Call
  | .waiting path mode a =>
      .waiting path mode (a || (success && decide (p = ⟨path, mode, some c⟩)))
  | call => call

/-- One step. An unsuccessful poll does nothing and is left out. -/
inductive Step : State → Act → State → Prop where
  /-- A NULL path is refused at once. -/
  | refused {s mode} :
      Step s (.submit none mode) { s with calls := s.calls ++ [.returned false false] }
  | submit {s path mode} :
      Step s (.submit (some path) mode) { s with
        req := s.req.submit path mode
        calls := s.calls ++ [.waiting path mode false]
        owner := some s.calls.length }
  | wake {s c path mode a} (hc : s.calls[c]? = some (.waiting path mode a)) :
      Step s (.wake c) { s with
        req := s.req.wake.2
        calls := match s.req.wake.1 with
          | some ok => s.calls.set c (.returned ok a)
          | none => s.calls }
  | timeOut {s c path mode a} (hc : s.calls[c]? = some (.waiting path mode a)) :
      Step s (.timeOut c) { s with
        req := s.req.timeOut.2
        calls := s.calls.set c (.returned s.req.timeOut.1 a) }
  | poll {s path mode} (hp : s.polled = none) (hr : s.req.poll = some (path, mode)) :
      Step s .poll { s with polled := some ⟨path, mode, s.owner⟩ }
  | complete {s p ok} (hp : s.polled = some p) :
      Step s (.complete ok) { s with
        req := s.req.complete ok
        calls := s.calls.mapIdx (answer p ok)
        polled := none }

def start : State := ⟨.init, [], none, none⟩

def handoff : Lts.System State Act where
  init s := s = start
  step := Step

/-! ## Answered by one's own completion -/

/-- A waiting call is the one that was polled. -/
def Call.isPolled (polled : Option Polled) (c : Nat) : Call → Bool
  | .waiting path mode _ => decide (polled = some ⟨path, mode, some c⟩)
  | .returned _ _ => true

/-- No result meets a call it is not for: nothing is submitted over a success that a waiting
    call has not taken yet, success is reported only while no call but the polled one waits,
    and none times out after success has been reported. -/
def Unmixed (s : State) : Act → Prop
  | .submit (some _) _ =>
      s.req.done = true ∧ s.req.success = true → ∀ call ∈ s.calls, call.isWaiting = false
  | .complete true => ∀ x ∈ s.calls.zipIdx, x.1.isPolled s.polled x.2 = true
  | .timeOut _ => ¬ (s.req.done = true ∧ s.req.success = true)
  | _ => True

instance (s : State) (a : Act) : Decidable (Unmixed s a) := by
  unfold Unmixed
  split <;> infer_instance

/-- What a waiting call was answered by is what the slot says; results are right. -/
structure Serving (s : State) : Prop where
  slot : ∀ (c : Nat) (path : CStr) (mode : UInt32) (a : Bool),
    s.calls[c]? = some (.waiting path mode a) → a = (s.req.done && s.req.success)
  polled : s.polled ≠ none → s.req.done = false
  right : ∀ (c : Nat) (ok a : Bool), s.calls[c]? = some (.returned ok a) → ok = a

theorem serving_start : Serving start := by
  refine ⟨?_, ?_, ?_⟩
  · intro c path mode a h
    cases h
  · intro h
    exact absurd rfl h
  · intro c ok a h
    cases h

/-- A completion of success finds only the polled call waiting. -/
theorem Unmixed.polled {s : State} (h : Unmixed s (.complete true)) {c : Nat} {path : CStr}
    {mode : UInt32} {a : Bool} (hc : s.calls[c]? = some (.waiting path mode a)) :
    s.polled = some ⟨path, mode, some c⟩ := by
  have hmem : (Call.waiting path mode a, c) ∈ s.calls.zipIdx :=
    List.mem_zipIdx_iff_getElem?.mpr hc
  exact of_decide_eq_true (h _ hmem)

/-- A new call at the end of the list. -/
theorem calls_concat {calls : List Call} {call call' : Call} {c : Nat}
    (h : (calls ++ [call])[c]? = some call') :
    calls[c]? = some call' ∨ (c = calls.length ∧ call' = call) := by
  rcases Nat.lt_trichotomy c calls.length with hlt | rfl | hgt
  · rw [List.getElem?_append_left hlt] at h
    exact Or.inl h
  · simp only [List.getElem?_append_right (Nat.le_refl _), Nat.sub_self,
      List.getElem?_cons_zero, Option.some.injEq] at h
    exact Or.inr ⟨rfl, h.symm⟩
  · rw [List.getElem?_eq_none (by simp; omega)] at h
    cases h

/-- A call whose state changes. -/
theorem calls_set {calls : List Call} {call call' : Call} {c d : Nat}
    (h : (calls.set c call)[d]? = some call') :
    (d = c ∧ call' = call) ∨ (d ≠ c ∧ calls[d]? = some call') := by
  rw [List.getElem?_set] at h
  split at h
  · next he =>
      split at h
      · exact Or.inl ⟨he.symm, (Option.some.inj h).symm⟩
      · cases h
  · next hne => exact Or.inr ⟨fun e => hne e.symm, h⟩

theorem Serving.leave {s : State} (h : Serving s) (c : Nat) {a ok : Bool} (hok : ok = a)
    (pending : Bool) :
    Serving { s with
      req := { s.req with pending := pending }, calls := s.calls.set c (.returned ok a) } := by
  refine ⟨fun d path mode a' hd => ?_, h.polled, fun d ok' a' hd => ?_⟩
  · rcases calls_set hd with ⟨-, he⟩ | ⟨-, hd⟩
    · cases he
    · exact h.slot d path mode a' hd
  · rcases calls_set hd with ⟨-, he⟩ | ⟨-, hd⟩
    · cases he
      exact hok
    · exact h.right d ok' a' hd

/-- A call that a completion leaves behind. -/
theorem calls_complete {calls : List Call} {p : Polled} {ok : Bool} {c : Nat} {call : Call}
    (h : (calls.mapIdx (answer p ok))[c]? = some call) :
    ∃ old, calls[c]? = some old ∧ answer p ok c old = call := by
  rw [List.getElem?_mapIdx] at h
  exact Option.map_eq_some_iff.mp h

theorem Serving.submit {s : State} (h : Serving s) {path : CStr} {mode : UInt32}
    (hok : Unmixed s (.submit (some path) mode)) (owner : Option Nat) :
    Serving { s with
      req := s.req.submit path mode, calls := s.calls ++ [.waiting path mode false]
      owner := owner } := by
  refine ⟨fun c path' mode' a hc => ?_, fun _ => rfl, fun c ok a hc => ?_⟩
  · -- the submission clears the slot's flags
    change a = false
    rcases calls_concat hc with hc | ⟨-, he⟩
    · have hno : ¬ (s.req.done = true ∧ s.req.success = true) := by
        intro hset
        have hwait := hok hset _ (List.mem_of_getElem? hc)
        cases hwait
      rw [h.slot c path' mode' a hc, ← Bool.not_eq_true, Bool.and_eq_true]
      exact hno
    · cases he
      rfl
  · rcases calls_concat hc with hc | ⟨-, he⟩
    · exact h.right c ok a hc
    · cases he

theorem Serving.complete {s : State} (h : Serving s) {p : Polled} {ok : Bool}
    (hp : s.polled = some p) (hok : Unmixed s (.complete ok)) :
    Serving { s with
      req := s.req.complete ok, calls := s.calls.mapIdx (answer p ok), polled := none } := by
  refine ⟨fun c path mode a hc => ?_, fun hne => absurd rfl hne, fun c ok' a hc => ?_⟩
  · change a = (true && ok)
    obtain ⟨old, hold, he⟩ := calls_complete hc
    cases old with
    | returned ok' a' => cases he
    | waiting path' mode' a' =>
        cases he
        have hdone : s.req.done = false := h.polled (by rw [hp]; exact Option.some_ne_none p)
        have ha : a' = false := by rw [h.slot c path mode a' hold, hdone, Bool.false_and]
        rw [ha, Bool.false_or, Bool.true_and]
        cases ok with
        | false => rfl
        | true =>
            have he : p = ⟨path, mode, some c⟩ := Option.some.inj (hp.symm.trans (hok.polled hold))
            rw [Bool.true_and, decide_eq_true he]
  · obtain ⟨old, hold, he⟩ := calls_complete hc
    cases old with
    | waiting path' mode' a' => cases he
    | returned ok'' a' =>
        cases he
        exact h.right c ok' a hold

theorem serving_step {s s' : State} {a : Act} (hst : Step s a s') (hok : Unmixed s a)
    (h : Serving s) : Serving s' := by
  cases hst with
  | refused =>
      refine ⟨fun c path mode a hc => ?_, h.polled, fun c ok a hc => ?_⟩
      · rcases calls_concat hc with hc | ⟨-, he⟩
        · exact h.slot c path mode a hc
        · cases he
      · rcases calls_concat hc with hc | ⟨-, he⟩
        · exact h.right c ok a hc
        · cases he
          rfl
  | submit => exact h.submit hok _
  | @wake c path mode a hc =>
      unfold Request.wake
      by_cases hd : s.req.done = true
      · have ha := h.slot c path mode a hc
        rw [hd, Bool.true_and] at ha
        rw [if_pos hd]
        exact h.leave c ha.symm false
      · rw [if_neg hd]
        exact h
  | @timeOut c path mode a hc =>
      refine h.leave c ?_ false
      rw [h.slot c path mode a hc]
      have hno : ¬ (s.req.done = true ∧ s.req.success = true) := hok
      rw [← Bool.and_eq_true, Bool.not_eq_true] at hno
      exact hno.symm
  | @poll path mode hp hr =>
      refine ⟨h.slot, fun _ => ?_, h.right⟩
      unfold Request.poll at hr
      split at hr
      · next hpend =>
          rw [Bool.and_eq_true, Bool.not_eq_true'] at hpend
          exact hpend.2
      · cases hr
  | complete hp => exact h.complete hp hok

/-- The right request is answered: in a run in which no result meets a call it is not for, a
    call has returned true exactly when a poll had returned its path and mode for its
    submission and the matching complete had reported success. -/
theorem capture_answers {s t : State} {tr : List (State × Act)} (hi : handoff.init s)
    (hr : Run handoff s tr t) (hm : Meets Unmixed tr) (c : Nat) (ok a : Bool)
    (hc : t.calls[c]? = some (.returned ok a)) : ok = true ↔ a = true := by
  have hstart : Serving s := hi ▸ serving_start
  have hserve : Serving t :=
    hr.invariant (fun s a s' hok h hst => serving_step (show Step s a s' from hst) hok h) hm hstart
  rw [hserve.right c ok a hc]

/-! ## Running -/

/-- The state a label leads to. -/
def State.next (s : State) : Act → Option State
  | .submit none _ => some { s with calls := s.calls ++ [.returned false false] }
  | .submit (some path) mode => some { s with
      req := s.req.submit path mode
      calls := s.calls ++ [.waiting path mode false]
      owner := some s.calls.length }
  | .wake c => match s.calls[c]? with
      | some (.waiting _ _ a) => some { s with
          req := s.req.wake.2
          calls := match s.req.wake.1 with
            | some ok => s.calls.set c (.returned ok a)
            | none => s.calls }
      | _ => none
  | .timeOut c => match s.calls[c]? with
      | some (.waiting _ _ a) => some { s with
          req := s.req.timeOut.2
          calls := s.calls.set c (.returned s.req.timeOut.1 a) }
      | _ => none
  | .poll => match s.polled, s.req.poll with
      | none, some (path, mode) => some { s with polled := some ⟨path, mode, s.owner⟩ }
      | _, _ => none
  | .complete ok => match s.polled with
      | some p => some { s with
          req := s.req.complete ok
          calls := s.calls.mapIdx (answer p ok)
          polled := none }
      | none => none

theorem next_step {s s' : State} {a : Act} (h : s.next a = some s') : Step s a s' := by
  cases a with
  | submit path mode =>
      cases path with
      | none => cases h; exact .refused
      | some path => cases h; exact .submit
  | wake c =>
      simp only [State.next] at h
      split at h
      · next hc => cases h; exact .wake hc
      · cases h
  | timeOut c =>
      simp only [State.next] at h
      split at h
      · next hc => cases h; exact .timeOut hc
      · cases h
  | poll =>
      simp only [State.next] at h
      split at h
      · next hp hr => cases h; exact .poll hp hr
      · cases h
  | complete ok =>
      simp only [State.next] at h
      split at h
      · next hp => cases h; exact .complete hp
      · cases h

/-- Two calls at a time: the second overwrites the first and is the one that is polled; the
    first times out before the completion. A third times out after its poll, and the late
    completion finds no call waiting. -/
def overlapping : List Act :=
  [.submit (some (ascii "a.png")) 0, .submit (some (ascii "b.png")) 1, .poll, .timeOut 0,
    .complete true, .wake 1, .submit (some (ascii "c.png")) 0, .poll, .timeOut 2, .complete true]

theorem capture_answers_overlapping : ∃ t, follow State.next start overlapping = some t ∧
    t.calls = [.returned false false, .returned true true, .returned false false] ∧
    ∀ (c : Nat) (ok a : Bool), t.calls[c]? = some (.returned ok a) → (ok = true ↔ a = true) := by
  have hrun : ((follow State.next start overlapping).map fun t =>
      decide (t.calls = [.returned false false, .returned true true, .returned false false] ∧
        Meets Unmixed (record State.next start overlapping))) = some true := by
    decide +kernel
  obtain ⟨t, ht, hrun⟩ := Option.map_eq_some_iff.mp hrun
  obtain ⟨hcalls, hmeets⟩ := of_decide_eq_true hrun
  exact ⟨t, ht, hcalls, fun c ok a hc =>
    capture_answers rfl (run_of_follow (fun _ _ _ => next_step) _ ht) hmeets c ok a hc⟩

/-- A call that timed out after the poll, and the next call: the late completion is for the
    first, and makes the second return true. -/
theorem capture_answers_lateCompletion : ∃ t, Reach handoff t ∧
    t.calls = [.returned false false, .returned true false] := by
  have hrun : ((follow State.next start [.submit (some (ascii "a.png")) 0, .poll, .timeOut 0,
      .submit (some (ascii "b.png")) 0, .complete true, .wake 1]).map fun t => t.calls) =
        some [.returned false false, .returned true false] := by
    decide +kernel
  obtain ⟨t, ht, hcalls⟩ := Option.map_eq_some_iff.mp hrun
  exact ⟨t, ⟨start, _, rfl, run_of_follow (fun _ _ _ => next_step) _ ht, fun _ _ => trivial⟩, hcalls⟩

end DisplayxrMcp.Capture
