/-
  The server's writes, byte by byte.

  The two places that write to a client (`serve`, and the loop of
  `broadcast_notification`) are steps of the server that write one frame each;
  `split` takes them apart into sends. Here it is shown that they exclude each
  other on every connection, by the client's `write_mutex` and `conns_mutex`.
-/
import DisplayxrMcp.Lib.Whole
import DisplayxrMcp.Server.Handshake
import DisplayxrMcp.Wire.Frame

namespace DisplayxrMcp.Server

open Lib Cjson Lts Wire

/-- A thread of the server. -/
inductive Mover where
  | accept
  | embedder (t : Nat)
  | serve (k : Fin maxConns)
  deriving DecidableEq

/-- The thread a label moves. -/
def Act.mover (a : Act) : Mover :=
  match a.embedder, a.slot with
  | some t, _ => .embedder t
  | none, some k => .serve k
  | none, none => .accept

/-- The frame that a step writes: `mcp_conn_write_bounded` for a broadcast, `write_frame` for a
    reply. -/
def State.writes (s : State) : Act → Option (Write ConnId UInt8)
  | .notifyWrite t _ =>
      match s.embed t with
      | .write k => (s.clients k).map fun cl => frameWrite cl.conn true (s.printText listChanged)
      | _ => none
  | .write k _ =>
      match s.clients k with
      | some cl =>
          match cl.pc with
          | .write _ body => some (frameWrite cl.conn false (s.printText body))
          | _ => none
      | none => none
  | _ => none

/-- The step with this outcome of its write. -/
def Act.settle : Act → Bool → Act
  | .notifyWrite t _, ok => .notifyWrite t ok
  | .write k _, ok => .write k ok
  | a, _ => a

theorem Act.mover_settle (a : Act) (ok : Bool) : (a.settle ok).mover = a.mover := by
  cases a <;> rfl

/-- The writes of the server; its mutexes are in its state. -/
def writers : Writers State Act Mover ConnId UInt8 where
  thread := Act.mover
  write := State.writes
  locks := fun _ _ => false
  settle := Act.settle
  thread_settle := Act.mover_settle
  locks_settle := fun _ _ _ => rfl

theorem writes_notify {s : State} {t : Nat} {k : Fin maxConns} {cl : Client} (ok : Bool)
    (ht : s.embed t = .write k) (hk : s.clients k = some cl) :
    s.writes (.notifyWrite t ok) = some (frameWrite cl.conn true (s.printText listChanged)) := by
  simp only [State.writes, ht, hk, Option.map_some]

theorem writes_reply {s : State} {k : Fin maxConns} {cl : Client} {kind : FrameKind} {body : Json}
    (ok : Bool) (hk : s.clients k = some cl) (hp : cl.pc = .write kind body) :
    s.writes (.write k ok) = some (frameWrite cl.conn false (s.printText body)) := by
  simp only [State.writes, hk, hp]

/-- A step that writes: who takes it, and for which client. -/
theorem writes_some {s : State} {a : Act} {w : Write ConnId UInt8} (h : s.writes a = some w) :
    (∃ t k cl, a.mover = .embedder t ∧ s.embed t = .write k ∧ s.clients k = some cl ∧
        w.conn = cl.conn) ∨
      ∃ k cl kind body, a.mover = .serve k ∧ s.clients k = some cl ∧ cl.pc = .write kind body ∧
        w.conn = cl.conn := by
  cases a with
  | notifyWrite t ok =>
      unfold State.writes at h
      dsimp only at h
      split at h
      · next k ht =>
          obtain ⟨cl, hcl, rfl⟩ := Option.map_eq_some_iff.mp h
          exact Or.inl ⟨t, k, cl, rfl, ht, hcl, rfl⟩
      · cases h
  | write k ok =>
      unfold State.writes at h
      dsimp only at h
      split at h
      · next cl hcl =>
          split at h
          · next kind body hp =>
              cases h
              exact Or.inr ⟨k, cl, kind, body, rfl, hcl, hp, rfl⟩
          · cases h
      · cases h
  | _ => cases h

/-! ## Connections -/

/-- No two clients share a connection. -/
theorem conn_once {s : State} (h : Reach server s) : ∀ k k' cl cl', s.clients k = some cl →
    s.clients k' = some cl' → cl.conn = cl'.conn → k = k' := by
  refine h.invariant_of (I := fun s => ∀ k k' cl cl', s.clients k = some cl →
    s.clients k' = some cl' → cl.conn = cl'.conn → k = k') (fun s hs => locks_reach hs) ?_ ?_
  · rintro s ⟨printText, r, rfl⟩ k k' cl cl' hk
    cases hk
  · intro s a s' _ hl hI hst k k' cl cl' hk hk' hc
    rcases step_client (show Step s a s' from hst) hk with ⟨hf, hnew⟩ | ⟨d, hd, hcd, -, -⟩
    · rcases step_client (show Step s a s' from hst) hk' with ⟨hf', -⟩ | ⟨d', hd', hcd', -, -⟩
      · exact Option.some.inj (hf.symm.trans hf')
      · exact absurd (hcd'.symm.trans (hc.symm.trans hnew)) (Nat.ne_of_lt (hl.fresh k' d' hd'))
    · rcases step_client (show Step s a s' from hst) hk' with ⟨-, hnew'⟩ | ⟨d', hd', hcd', -, -⟩
      · exact absurd (hcd.symm.trans (hc.trans hnew')) (Nat.ne_of_lt (hl.fresh k d hd))
      · exact hI k k' d d' hd hd' (hcd.symm.trans (hc.trans hcd'))

theorem step_printText {s s' : State} {a : Act} (hst : Step s a s') :
    s'.printText = s.printText := by
  cases hst <;> rfl

/-- A client is there as long as its slot cannot be unwound, on the same connection; others than
    its serve thread leave it where it stands. -/
theorem step_client_used {s s' : State} {a : Act} (hst : Step s a s') {k : Fin maxConns}
    {cl : Client} (hk : s.clients k = some cl)
    (hstay : s.connsMutex ≠ none ∨ a.slot ≠ some k) :
    ∃ cl', s'.clients k = some cl' ∧ cl'.conn = cl.conn ∧ (a.slot ≠ some k → cl'.pc = cl.pc) := by
  have hsame : ∃ cl', s.clients k = some cl' ∧ cl'.conn = cl.conn ∧
      (a.slot ≠ some k → cl'.pc = cl.pc) := ⟨cl, hk, rfl, fun _ => rfl⟩
  have hput : ∀ {j : Fin maxConns} {d d' : Client}, s.clients j = some d → d'.conn = d.conn →
      (a.slot ≠ some j → d'.pc = d.pc) → ∃ cl', s.clients.put j d' k = some cl' ∧
        cl'.conn = cl.conn ∧ (a.slot ≠ some k → cl'.pc = cl.pc) := by
    intro j d d' hj hc hp
    rw [Slots.put_apply]
    by_cases he : k = j
    · subst he
      rw [hk] at hj
      cases hj
      exact ⟨d', if_pos rfl, hc, hp⟩
    · rw [if_neg he]
      exact hsame
  cases hst with
  | @accepted j hm hj =>
      have hfree := Slots.firstFree_some hj
      have hne : k ≠ j := by
        rintro rfl
        rw [hk] at hfree
        cases hfree
      exact ⟨cl, (Slots.put_apply ..).trans ((if_neg hne).trans hk), rfl, fun _ => rfl⟩
  | @unwind j d hj hp hm =>
      have hne : k ≠ j := by
        rintro rfl
        rcases hstay with hno | hno
        · exact hno hm
        · exact hno rfl
      exact ⟨cl, (Slots.clear_apply ..).trans ((if_neg hne).trans hk), rfl, fun _ => rfl⟩
  | scanTake ht hj hi hb => exact hput hj rfl fun _ => rfl
  | notifyWrite ht hj hok => exact hput hj rfl fun _ => rfl
  | recv hj hp => exact hput hj rfl fun hno => absurd rfl hno
  | dispatch hj hp => exact hput hj rfl fun hno => absurd rfl hno
  | handler hj hp => exact hput hj rfl fun hno => absurd rfl hno
  | lockWrite hj hp hm => exact hput hj rfl fun hno => absurd rfl hno
  | write hj hp hok => exact hput hj rfl fun hno => absurd rfl hno
  | _ => exact hsame

/-- Broadcasts and replies exclude each other on a connection. -/
theorem exclusive : Exclusive server writers := by
  refine ⟨?_, ?_⟩
  · intro s a a' w w' hr hw hw' hc hne
    have hl := locks_reach hr
    have hm := marking_reach hr
    refine (hne ?_).elim
    show a.mover = a'.mover
    have hw : s.writes a = some w := hw
    have hw' : s.writes a' = some w' := hw'
    rcases writes_some hw with ⟨t, k, cl, ha, ht, hk, hcl⟩ | ⟨k, cl, kind, body, ha, hk, hp, hcl⟩
    · rcases writes_some hw' with ⟨u, j, d, ha', hu, hj, hd⟩ | ⟨j, d, kind, body, ha', hj, hp, hd⟩
      · have htu : u = t := hl.broadcaster_unique (by rw [ht]; rfl) (by rw [hu]; rfl)
        rw [ha, ha', htu]
      · have hkj := conn_once hr k j cl d hk hj (by rw [← hcl, hc, hd])
        subst hkj
        rw [hk] at hj
        cases hj
        obtain ⟨cl', hk', -, hmutex⟩ := hm.target t k ht
        rw [hk] at hk'
        cases hk'
        rw [hm.locked k cl kind body hk hp] at hmutex
        cases hmutex
    · rcases writes_some hw' with ⟨u, j, d, ha', hu, hj, hd⟩ |
          ⟨j, d, kind', body', ha', hj, hp', hd⟩
      · have hkj := conn_once hr k j cl d hk hj (by rw [← hcl, hc, hd])
        subst hkj
        rw [hk] at hj
        cases hj
        obtain ⟨cl', hk', -, hmutex⟩ := hm.target u k hu
        rw [hk] at hk'
        cases hk'
        rw [hm.locked k cl kind body hk hp] at hmutex
        cases hmutex
      · rw [ha, ha', conn_once hr k j cl d hk hj (by rw [← hcl, hc, hd])]
  · intro s a w b s' hr hw hst hne _
    have hst' : Step s b s' := hst
    have hw : s.writes a = some w := hw
    have hne' : b.mover ≠ a.mover := hne
    refine ⟨?_, rfl⟩
    show s'.writes a = some w
    cases a with
    | notifyWrite t ok =>
        unfold State.writes at hw
        dsimp only at hw
        split at hw
        · next k ht =>
            obtain ⟨cl, hk, rfl⟩ := Option.map_eq_some_iff.mp hw
            have ht' : s'.embed t = .write k := by
              rw [step_embed_other hst' fun he => hne' (by unfold Act.mover; rw [he]; rfl)]
              exact ht
            have hmutex : s.connsMutex ≠ none := by
              rw [(locks_reach hr).broadcaster t (by rw [ht]; rfl)]
              exact Option.some_ne_none t
            obtain ⟨cl', hk', hc, -⟩ := step_client_used hst' hk (Or.inl hmutex)
            rw [writes_notify ok ht' hk', step_printText hst', hc]
        · cases hw
    | write k ok =>
        unfold State.writes at hw
        dsimp only at hw
        split at hw
        · next cl hk =>
            split at hw
            · next kind body hp =>
                cases hw
                have hslot : b.slot ≠ some k := by
                  intro he
                  apply hne'
                  cases b with
                  | _ => first | (cases he; rfl) | cases he
                obtain ⟨cl', hk', hc, hpc⟩ := step_client_used hst' hk (Or.inr hslot)
                rw [writes_reply ok hk' ((hpc hslot).trans hp), step_printText hst', hc]
            · cases hw
        · cases hw
    | _ => cases hw

end DisplayxrMcp.Server
