/-
  The aggregator with a server on one of its connections.

  `joint c` runs the aggregator beside the server that accepts its connection
  `c`. What the aggregator writes to `c` goes to the server's `inbox`; what it
  reads from `c` is what `cJSON_Parse` makes of the head of the server's `outbox`,
  or the end of a broken connection. A write that fails leaves nothing to read. The
  other peers are unconstrained, and so are the agent, the poll and the threads.
-/
import DisplayxrMcp.Aggregator.Isolation
import DisplayxrMcp.Pair.Peer

namespace DisplayxrMcp.Pair

open Lib Cjson Lts

structure Joint where
  sys : Sys
  peer : Peer

inductive Move where
  | agg (a : Act)
  | peer (a : PeerAct)

/-- The frame for the server on `c` in what a step writes. -/
def sentTo (c : ConnId) : Option (ConnId × Json) → List Json
  | some (c', j) => if c' = c then [j] else []
  | none => []

/-- What a step may read when `outbox` is unread on `c`, and what is left of it. -/
inductive Reads (c : ConnId) (outbox : List Frame) :
    Option (ConnId × Inbound) → List Frame → Prop where
  | elsewhere {m} (h : ∀ f, m ≠ some (c, f)) : Reads c outbox m outbox
  | broken : Reads c outbox (some (c, .eof)) outbox
  | frame {f rest} (h : outbox = f :: rest) : Reads c outbox (some (c, f.inbound)) rest

/-- The server after the aggregator has read and written. -/
def Peer.exchange (p : Peer) (rest : List Frame) (sent : List Json) : Peer :=
  { p with outbox := rest, inbox := p.inbox ++ sent }

inductive Joint.Step (c : ConnId) : Joint → Move → Joint → Prop where
  | agg {j a s' rest} (hst : DisplayxrMcp.Step j.sys a s')
      (hr : Reads c j.peer.outbox (j.sys.recvd a) rest) :
      Joint.Step c j (.agg a) ⟨s', j.peer.exchange rest (sentTo c (j.sys.sent a))⟩
  | peer {j a p'} (hst : j.peer.Step a p') : Joint.Step c j (.peer a) ⟨j.sys, p'⟩

def joint (c : ConnId) : Lts.System Joint Move where
  init j := aggregator.init j.sys ∧ ∃ printText r, j.peer = Peer.start printText r
  step := Joint.Step c

/-- A run of both is a run of the aggregator. -/
theorem agg_reach {c : ConnId} {ok : Joint → Move → Prop} {ok' : Sys → Act → Prop}
    (himp : ∀ j a, ok j (.agg a) → ok' j.sys a) {j : Joint} (h : ReachWhen (joint c) ok j) :
    ReachWhen aggregator ok' j.sys := by
  obtain ⟨j₀, tr, hi, hr, hm⟩ := h
  induction hr with
  | refl => exact ReachWhen.init hi.1
  | tail _ hst ih =>
      obtain ⟨hm', he⟩ := meets_snoc.mp hm
      cases hst with
      | agg hst hr => exact (ih hm').step (himp _ _ he) hst
      | peer hst => exact ih hm'

/-! ## Conditions -/

/-- A refresh for connection `c` finds a free slot, and its write goes through. -/
def RefreshGoes (c : ConnId) (s : Sys) : Act → Prop
  | .refresh t ok => ∀ idx b, s.threads t = .reader idx .refresh → s.g.backends idx = some b →
      b.conn = c → ok = true ∧ s.g.inflight.firstFree ≠ none
  | _ => True

/-- The reader refuses no answer to a `tools/list`. -/
def ListsParse (c : ConnId) (s : Sys) (p : Peer) : Act → Prop
  | .recv t .junk => ∀ idx, s.threads t = .reader idx (.read c) →
      ∀ f ∈ p.outbox.head?, f.isList = false
  | _ => True

/-- No message names a slot of another backend. -/
def NoForeign (s : Sys) : Act → Prop
  | .lookup t => ¬ NamesForeign s t
  | _ => True

/-- `RefreshGoes`, as a test. -/
def refreshGoes (c : ConnId) (s : Sys) : Act → Bool
  | .refresh t ok => match s.threads t with
    | .reader idx .refresh => (s.g.backends idx).all fun b =>
        decide (b.conn = c → ok = true ∧ s.g.inflight.firstFree ≠ none)
    | _ => true
  | _ => true

theorem refreshGoes_iff {c : ConnId} {s : Sys} {a : Act} :
    refreshGoes c s a = true ↔ RefreshGoes c s a := by
  cases a with
  | refresh t ok =>
      simp only [refreshGoes, RefreshGoes]
      constructor
      · intro h idx b ht hb hbc
        rw [ht] at h
        simp only [hb, Option.all_some, decide_eq_true_eq] at h
        exact h hbc
      · intro h
        split
        · next idx ht =>
            cases hb : s.g.backends idx with
            | none => rfl
            | some b => exact decide_eq_true (h idx b ht hb)
        · rfl
  | _ => simp [refreshGoes, RefreshGoes]

/-- `ListsParse`, as a test. -/
def listsParse (c : ConnId) (s : Sys) (p : Peer) : Act → Bool
  | .recv t .junk => match s.threads t with
    | .reader _ (.read c') => decide (c' = c → ∀ f ∈ p.outbox.head?, f.isList = false)
    | _ => true
  | _ => true

theorem listsParse_iff {c : ConnId} {s : Sys} {p : Peer} {a : Act} :
    listsParse c s p a = true ↔ ListsParse c s p a := by
  cases a with
  | recv t f =>
      cases f with
      | junk =>
          simp only [listsParse, ListsParse]
          constructor
          · intro h idx ht
            rw [ht] at h
            exact of_decide_eq_true h rfl
          · intro h
            split
            · next idx c' ht =>
                refine decide_eq_true fun hc => ?_
                subst hc
                exact h idx ht
            · rfl
      | _ => simp [listsParse, ListsParse]
  | _ => simp [listsParse, ListsParse]

/-- `NoForeign`, as a test. -/
def noForeign (s : Sys) : Act → Bool
  | .lookup t => decide (¬ NamesForeign s t)
  | _ => true

theorem noForeign_iff {s : Sys} {a : Act} : noForeign s a = true ↔ NoForeign s a := by
  cases a with
  | lookup t => exact decide_eq_true_iff
  | _ => simp [noForeign, NoForeign]

instance (c : ConnId) (s : Sys) (a : Act) : Decidable (RefreshGoes c s a) :=
  decidable_of_iff _ refreshGoes_iff

instance (c : ConnId) (s : Sys) (p : Peer) (a : Act) : Decidable (ListsParse c s p a) :=
  decidable_of_iff _ listsParse_iff

instance (s : Sys) (a : Act) : Decidable (NoForeign s a) := decidable_of_iff _ noForeign_iff

/-- No refresh of the server's tools is lost: it is asked for, and its answer is read. -/
def RefreshKept (c : ConnId) (j : Joint) : Move → Prop
  | .agg a => IdRoom j.sys a ∧ NoForeign j.sys a ∧ RefreshGoes c j.sys a ∧
      ListsParse c j.sys j.peer a
  | .peer _ => True

instance (c : ConnId) (j : Joint) : (m : Move) → Decidable (RefreshKept c j m)
  | .agg a => inferInstanceAs (Decidable (IdRoom j.sys a ∧ NoForeign j.sys a ∧
      RefreshGoes c j.sys a ∧ ListsParse c j.sys j.peer a))
  | .peer _ => .isTrue trivial

/-- The server is registered as backend `idx`, its reader waits for a frame, nothing it has
    written is unread, every change is announced, and it has answered every `tools/list`. -/
structure Idle (c : ConnId) (j : Joint) (idx : Fin maxBackends) (b : Backend) : Prop where
  backend : j.sys.g.backends idx = some b
  reads : ∃ t, j.sys.threads t = .reader idx (.read c)
  unread : j.peer.outbox = []
  announced : j.peer.owed = 0
  answered : ∀ a ∈ j.peer.asks, a.kind ≠ .list

/-- `Idle` with its reader on thread `t`, as a test. -/
def isIdle (c : ConnId) (j : Joint) (t : Nat) (idx : Fin maxBackends) : Bool :=
  (match j.sys.threads t with
    | .reader k (.read c') => decide (k = idx ∧ c' = c)
    | _ => false) &&
  decide (j.peer.outbox = [] ∧ j.peer.owed = 0 ∧ ∀ a ∈ j.peer.asks, a.kind ≠ .list)

theorem idle_of_isIdle {c : ConnId} {j : Joint} {t : Nat} {idx : Fin maxBackends} {b : Backend}
    (h : isIdle c j t idx = true) (hb : j.sys.g.backends idx = some b) : Idle c j idx b := by
  simp only [isIdle, Bool.and_eq_true, decide_eq_true_eq] at h
  obtain ⟨hread, hout, howed, hasks⟩ := h
  refine ⟨hb, ⟨t, ?_⟩, hout, howed, hasks⟩
  split at hread
  · next k c' ht =>
      obtain ⟨rfl, rfl⟩ := of_decide_eq_true hread
      exact ht
  · cases hread

/-! ## Running -/

/-- What is left of `outbox` when a step reads `m`, if it may. -/
def readsLeft (c : ConnId) (outbox : List Frame) : Option (ConnId × Inbound) → Option (List Frame)
  | none => some outbox
  | some (c', f) =>
      if c' = c then
        match f, outbox with
        | .eof, _ => some outbox
        | f, fr :: rest => if fr.inbound = f then some rest else none
        | _, [] => none
      else some outbox

theorem reads_of_readsLeft {c : ConnId} {outbox rest : List Frame}
    {m : Option (ConnId × Inbound)} (h : readsLeft c outbox m = some rest) :
    Reads c outbox m rest := by
  cases m with
  | none =>
      cases h
      exact .elsewhere fun f hf => by cases hf
  | some r =>
      obtain ⟨c', f⟩ := r
      simp only [readsLeft] at h
      split at h
      · next hc =>
          subst hc
          split at h
          · cases h
            exact .broken
          · next j fr rest' =>
              split at h
              · next hb =>
                  cases h
                  subst hb
                  exact .frame rfl
              · cases h
          · cases h
      · next hc =>
          cases h
          refine .elsewhere fun f' hf => hc ?_
          cases hf
          rfl

/-- The state a label leads to. -/
def Joint.next (c : ConnId) (j : Joint) : Move → Option Joint
  | .agg a => (readsLeft c j.peer.outbox (j.sys.recvd a)).bind fun rest =>
      (j.sys.next a).map fun s' => ⟨s', j.peer.exchange rest (sentTo c (j.sys.sent a))⟩
  | .peer a => (j.peer.next a).map fun p' => ⟨j.sys, p'⟩

theorem Joint.next_step {c : ConnId} {j j' : Joint} {m : Move} (h : j.next c m = some j') :
    Joint.Step c j m j' := by
  cases m with
  | agg a =>
      obtain ⟨rest, hr, h⟩ := Option.bind_eq_some_iff.mp h
      obtain ⟨s', hs, rfl⟩ := Option.map_eq_some_iff.mp h
      exact .agg (DisplayxrMcp.next_step hs) (reads_of_readsLeft hr)
  | peer a =>
      obtain ⟨p', hp, rfl⟩ := Option.map_eq_some_iff.mp h
      exact .peer (Peer.next_step hp)

end DisplayxrMcp.Pair
