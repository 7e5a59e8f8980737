/-
  Notifications and the handshake reply.

  `handle_request` sets `initialized` while it dispatches the `initialize`
  request; the reply is written later, under `write_mutex`. A broadcast that
  takes the mutex in between writes ahead of the reply. `hello_first` says that
  this window is the whole of it: what a run has written is in order exactly
  when no notification was written to a client in the window.
-/
import DisplayxrMcp.Server.Notify

namespace DisplayxrMcp.Server

open Lib Cjson Lts

/-! ## Order of the frames -/

/-- The reply to `initialize` is among the frames of connection `c`. -/
def Greeted (sent : List SentFrame) (c : ConnId) : Prop := ∃ f ∈ sent, f.conn = c ∧ f.kind = .hello

instance (sent : List SentFrame) (c : ConnId) : Decidable (Greeted sent c) :=
  inferInstanceAs (Decidable (∃ f ∈ sent, _))

/-- On every connection, no `list_changed` stands before the first reply to `initialize`. -/
def HelloFirst (sent : List SentFrame) : Prop :=
  ∀ l f l', sent = l ++ f :: l' → f.kind = .changed → Greeted l f.conn

theorem helloFirst_nil : HelloFirst [] := by
  intro l f l' h
  cases l <;> cases h

theorem helloFirst_snoc {sent : List SentFrame} {f : SentFrame} :
    HelloFirst (sent ++ [f]) ↔ HelloFirst sent ∧ (f.kind = .changed → Greeted sent f.conn) := by
  constructor
  · intro h
    refine ⟨fun l g l' hl hg => ?_, fun hf => h sent f [] rfl hf⟩
    exact h l g (l' ++ [f]) (by rw [hl, List.append_assoc]; rfl) hg
  · rintro ⟨h, hf⟩ l g l' hl hg
    rcases List.eq_nil_or_concat l' with rfl | ⟨l₀, x, rfl⟩
    · obtain ⟨rfl, hfg⟩ := List.append_inj' hl rfl
      cases hfg
      exact hf hg
    · refine h l g l₀ ?_ hg
      rw [List.concat_eq_append, ← List.cons_append, ← List.append_assoc] at hl
      exact (List.append_inj' hl rfl).1

/-- Frames other than notifications do not disturb the order. -/
theorem helloFirst_quiet {sent : List SentFrame} {ok : Bool} {c : ConnId} {kind : FrameKind}
    {body : Json} (hk : kind ≠ .changed) :
    HelloFirst (sent ++ frameIf ok c kind body) ↔ HelloFirst sent := by
  cases ok with
  | false => simp [frameIf]
  | true =>
      rw [frameIf, if_pos rfl, helloFirst_snoc]
      exact ⟨fun h => h.1, fun h => ⟨h, fun he => absurd he hk⟩⟩

theorem Greeted.append {sent : List SentFrame} {c : ConnId} (h : Greeted sent c)
    (out : List SentFrame) : Greeted (sent ++ out) c := by
  obtain ⟨f, hf, hfc⟩ := h
  exact ⟨f, List.mem_append_left _ hf, hfc⟩

/-! ## The window -/

/-- Marked initialized, the reply not begun: waiting for `write_mutex`, or given up. -/
def ServePc.marked : ServePc → Bool
  | .reply .hello _ => true
  | .closing => true
  | _ => false

/-- Writing the reply to `initialize`. -/
def ServePc.greeting : ServePc → Bool
  | .write .hello _ => true
  | _ => false

/-- The client's serve thread has set `initialized` for its first `initialize` and has not
    taken `write_mutex` for the reply (or has failed to write it). -/
def InWindow (sent : List SentFrame) (cl : Client) : Prop :=
  cl.pc.marked = true ∧ ¬ Greeted sent cl.conn

instance (sent : List SentFrame) (cl : Client) : Decidable (InWindow sent cl) :=
  inferInstanceAs (Decidable (_ ∧ _))

/-- The client a step completes a notification to. -/
def notifiedClient (s : State) (a : Act) : Option Client :=
  match a with
  | .notifyWrite t true => match s.embed t with
    | .write k => s.clients k
    | _ => none
  | _ => none

/-- The step writes no notification into the window. -/
def OutsideWindow (s : State) (a : Act) : Prop :=
  ∀ cl ∈ notifiedClient s a, ¬ InWindow s.sent cl

instance (s : State) (a : Act) : Decidable (OutsideWindow s a) :=
  inferInstanceAs (Decidable (∀ cl ∈ notifiedClient s a, _))

/-- What a notifying thread and a marked client are up to. -/
structure Marking (s : State) : Prop where
  target : ∀ t k, s.embed t = .write k → ∃ cl, s.clients k = some cl ∧
    cl.initialized = true ∧ cl.writeMutex = some (.embedder t)
  locked : ∀ k cl kind body, s.clients k = some cl → cl.pc = .write kind body →
    cl.writeMutex = some .serve
  quiet : ∀ k cl kind body, s.clients k = some cl → cl.pc = .reply kind body ∨
    cl.pc = .write kind body → kind ≠ .changed
  marked : ∀ k cl, s.clients k = some cl → cl.initialized = true →
    Greeted s.sent cl.conn ∨ cl.pc.marked = true ∨ cl.pc.greeting = true

theorem marking_start (printText : Json → CStr) (r : Registry) : Marking (start printText r) := by
  refine ⟨?_, ?_, ?_, ?_⟩
  · intro t k h; cases h
  · intro k cl kind body h; cases h
  · intro k cl kind body h; cases h
  · intro k cl h; cases h

theorem Marking.congr {s s' : State} (h : Marking s) (hc : s'.clients = s.clients)
    (he : s'.embed = s.embed) (hs : s'.sent = s.sent) : Marking s' := by
  refine ⟨?_, ?_, ?_, ?_⟩
  · rw [hc, he]; exact h.target
  · rw [hc]; exact h.locked
  · rw [hc]; exact h.quiet
  · rw [hc, hs]; exact h.marked

/-- An embedder thread moves to a point where it holds no client's mutex. -/
theorem Marking.setEmbed {s : State} (h : Marking s) {t : Nat} {pc : EmbedPc}
    (hpc : ∀ k, pc ≠ .write k) : Marking (s.setEmbed t pc) := by
  refine ⟨fun u k hu => ?_, h.locked, h.quiet, h.marked⟩
  by_cases hut : u = t
  · subst hut
    rw [State.setEmbed_same] at hu
    exact absurd hu (hpc k)
  · rw [State.setEmbed_ne _ _ hut] at hu
    exact h.target u k hu

/-- The client of slot `k` changes, and frames are written. -/
theorem Marking.setClient {s : State} (h : Marking s) {k : Fin maxConns} {cl c : Client}
    {o : List SentFrame} (hk : s.clients k = some cl)
    (hi : cl.initialized = true → c.initialized = true)
    (hm : ∀ t, s.embed t = .write k → cl.writeMutex = some (.embedder t) →
      c.writeMutex = some (.embedder t))
    (hlock : ∀ kind body, c.pc = .write kind body → c.writeMutex = some .serve)
    (hquiet : ∀ kind body, c.pc = .reply kind body ∨ c.pc = .write kind body →
      kind ≠ .changed)
    (hmark : c.initialized = true → Greeted (s.sent ++ o) c.conn ∨ c.pc.marked = true ∨
      c.pc.greeting = true) : Marking ((s.setClient k c).log o) := by
  refine ⟨?_, ?_, ?_, ?_⟩
  · intro t j ht
    obtain ⟨d, hd, hdi, hdm⟩ := h.target t j ht
    by_cases hjk : j = k
    · subst hjk
      rw [hk] at hd
      cases hd
      exact ⟨c, by simp, hi hdi, hm t ht hdm⟩
    · exact ⟨d, by simp [Slots.put_ne _ _ hjk, hd], hdi, hdm⟩
  · intro j d kind body hj hp
    rcases Slots.put_some hj with ⟨-, rfl⟩ | hj
    · exact hlock kind body hp
    · exact h.locked j d kind body hj hp
  · intro j d kind body hj hp
    rcases Slots.put_some hj with ⟨-, rfl⟩ | hj
    · exact hquiet kind body hp
    · exact h.quiet j d kind body hj hp
  · intro j d hj hdi
    rcases Slots.put_some hj with ⟨-, rfl⟩ | hj
    · exact hmark hdi
    · rcases h.marked j d hj hdi with hg | hp
      · exact Or.inl (hg.append o)
      · exact Or.inr hp

/-- At most one thread is inside a broadcast. -/
theorem Locks.broadcaster_unique {s : State} (hl : Locks s) {t u : Nat}
    (ht : (s.embed t).broadcasting = true) (hu : (s.embed u).broadcasting = true) : u = t := by
  have h := hl.broadcaster u hu
  rw [hl.broadcaster t ht] at h
  exact (Option.some.inj h).symm

/-- Not writing, and no notification to write. -/
def ServePc.quiet : ServePc → Bool
  | .reply .changed _ => false
  | .write _ _ => false
  | _ => true

theorem ServePc.quiet_reply {pc : ServePc} (h : pc.quiet = true) {kind : FrameKind} {body : Json}
    (hp : pc = .reply kind body ∨ pc = .write kind body) : kind ≠ .changed := by
  rintro rfl
  rcases hp with rfl | rfl
  · cases h
  · cases h

theorem ServePc.quiet_not_write {pc : ServePc} (h : pc.quiet = true) (kind : FrameKind)
    (body : Json) : pc ≠ .write kind body := by
  rintro rfl
  cases h

theorem onFrame_quiet (f : Inbound) : (onFrame f).quiet = true := by
  cases f with
  | eof => rfl
  | junk => rfl
  | msg req =>
      change (handleRequest req).quiet = true
      unfold handleRequest
      dsimp only
      split
      · rfl
      · rfl
      · rfl
      · split
        · rfl
        · split
          · rfl
          · split
            · rfl
            · split
              · split <;> rfl
              · rfl

/-- A locked section starts no write, and leaves a client that is marked now with its reply to
    `initialize` due. -/
theorem dispatchStep_quiet {r : Registry} {pc pc' : ServePc} {mark : Bool}
    (h : dispatchStep r pc = some (pc', mark)) :
    pc'.quiet = true ∧ (mark = true → pc'.marked = true) ∧ pc.marked = false ∧
      pc.greeting = false := by
  cases pc with
  | hello id => cases h; simp [ServePc.quiet, ServePc.marked, ServePc.greeting]
  | markInitialized id appId => cases h; simp [ServePc.quiet, ServePc.marked, ServePc.greeting]
  | listTools id => cases h; simp [ServePc.quiet, ServePc.marked, ServePc.greeting]
  | listAppId id tools => cases h; simp [ServePc.quiet, ServePc.marked, ServePc.greeting]
  | findTool id name args =>
      simp only [dispatchStep] at h
      split at h <;> cases h <;> simp [ServePc.quiet, ServePc.marked, ServePc.greeting]
  | read => cases h
  | call id tool args => cases h
  | reply kind body => cases h
  | write kind body => cases h
  | closing => cases h

/-- A serve thread that is neither writing nor about to moves to such a point, or to a reply. -/
theorem Marking.serve {s : State} (h : Marking s) {k : Fin maxConns} {cl cl' : Client}
    (hk : s.clients k = some cl) (hc : cl'.conn = cl.conn) (hm : cl'.writeMutex = cl.writeMutex)
    (hi : cl.initialized = true → cl'.initialized = true) (hq : cl'.pc.quiet = true)
    (hmark : cl'.initialized = true → cl.initialized = true ∨ cl'.pc.marked = true)
    (hold : cl.pc.marked = false ∧ cl.pc.greeting = false) : Marking (s.setClient k cl') := by
  have hset := h.setClient (o := []) hk hi (fun t _ hw => hm ▸ hw)
    (fun kind body hp => absurd hp (ServePc.quiet_not_write hq kind body))
    (fun kind body hp => ServePc.quiet_reply hq hp) ?_
  · exact hset.congr rfl rfl (List.append_nil _).symm
  · intro hi'
    rw [List.append_nil, hc]
    rcases hmark hi' with hinit | hdue
    · rcases h.marked k cl hk hinit with hg | hp | hp
      · exact Or.inl hg
      · rw [hold.1] at hp; cases hp
      · rw [hold.2] at hp; cases hp
    · exact Or.inr (Or.inl hdue)

theorem marking_step {s s' : State} {a : Act} (hst : Step s a s') (hl : Locks s)
    (h : Marking s) : Marking s' := by
  cases hst with
  | @accepted k hm hk =>
      have hfree := Slots.firstFree_some hk
      refine ⟨fun t j ht => ?_, ?_, ?_, ?_⟩
      · obtain ⟨d, hd, hd'⟩ := h.target t j ht
        have hjk : j ≠ k := by
          rintro rfl
          rw [hfree] at hd
          cases hd
        exact ⟨d, by simp [Slots.put_ne _ _ hjk, hd], hd'⟩
      · intro j d kind body hj hp
        rcases Slots.put_some hj with ⟨-, rfl⟩ | hj
        · cases hp
        · exact h.locked j d kind body hj hp
      · intro j d kind body hj hp
        rcases Slots.put_some hj with ⟨-, rfl⟩ | hj
        · rcases hp with hp | hp <;> cases hp
        · exact h.quiet j d kind body hj hp
      · intro j d hj hi
        rcases Slots.put_some hj with ⟨-, rfl⟩ | hj
        · cases hi
        · exact h.marked j d hj hi
  | rejected hm hk => exact h.congr rfl rfl rfl
  | @change t op ht =>
      have hr : Marking { s with registry := (op.apply s.registry).1 } := h.congr rfl rfl rfl
      refine hr.setEmbed fun k => ?_
      split <;> simp
  | @notify t ht =>
      refine h.setEmbed fun k => ?_
      split <;> simp
  | @lockConns t ht hm =>
      have hr : Marking { s with connsMutex := some t } := h.congr rfl rfl rfl
      exact hr.setEmbed fun k => by simp
  | scanSkip ht hk => exact h.setEmbed fun k => by simp
  | scanBusy ht hk hi hb => exact h.setEmbed fun k => by simp
  | @scanTake t cl k ht hk hi hb =>
      have hset := h.setClient (o := []) hk (c := { cl with writeMutex := some (.embedder t) })
        id (fun u hu _ => ?_) (fun kind body hp => ?_)
        (fun kind body hp => h.quiet k cl kind body hk hp) (fun hi' => ?_)
      · have hlog : Marking (s.setClient k { cl with writeMutex := some (.embedder t) }) :=
          hset.congr rfl rfl (List.append_nil _).symm
        refine ⟨fun u j hu => ?_, hlog.locked, hlog.quiet, hlog.marked⟩
        by_cases hut : u = t
        · subst hut
          rw [State.setEmbed_same] at hu
          cases hu
          exact ⟨_, Slots.put_same _ _ _, hi, rfl⟩
        · rw [State.setEmbed_ne _ _ hut] at hu
          exact hlog.target u j hu
      · have hut := hl.broadcaster_unique (t := t) (u := u) (by rw [ht]; rfl) (by rw [hu]; rfl)
        rw [hut, ht] at hu
        cases hu
      · have hw := h.locked k cl kind body hk hp
        rw [hb] at hw
        cases hw
      · rw [List.append_nil]
        exact h.marked k cl hk hi'
  | @scanDone t ht =>
      have hr : Marking { s with connsMutex := none } := h.congr rfl rfl rfl
      exact hr.setEmbed fun k => by simp
  | @notifyWrite t cl k ok ht hk hok =>
      obtain ⟨d, hd, -, hdm⟩ := h.target t k ht
      rw [hk] at hd
      cases hd
      have hmoved : Marking (s.setEmbed t (.scan (k + 1))) := h.setEmbed fun j => by simp
      refine hmoved.setClient (c := { cl with writeMutex := none, aborted := cl.aborted || !ok })
        (o := frameIf ok cl.conn .changed listChanged) hk id (fun u hu hw => ?_)
        (fun kind body hp => ?_) (fun kind body hp => h.quiet k cl kind body hk hp)
        (fun hi' => ?_)
      · -- the mutex was this thread's, and it has moved on
        rw [hdm] at hw
        cases hw
        rw [State.setEmbed_same] at hu
        cases hu
      · have hw := h.locked k cl kind body hk hp
        rw [hdm] at hw
        cases hw
      · rcases h.marked k cl hk hi' with hg | hp
        · exact Or.inl (hg.append _)
        · exact Or.inr hp
  | @recv k cl f hk hp =>
      refine h.serve hk rfl rfl id (onFrame_quiet f) Or.inl ?_
      rw [hp]
      exact ⟨rfl, rfl⟩
  | @dispatch k cl pc mark hk hp =>
      obtain ⟨hq, hmark, hold⟩ := dispatchStep_quiet hp
      refine h.serve hk rfl rfl (fun hi => by simp [hi]) hq (fun hi => ?_) hold
      rcases Bool.or_eq_true_iff.mp hi with hi | hi
      · exact Or.inl hi
      · exact Or.inr (hmark hi)
  | @handler k cl id tool args inner hk hp =>
      refine h.serve hk rfl rfl (fun hi => hi) rfl Or.inl ?_
      rw [hp]
      exact ⟨rfl, rfl⟩
  | @lockWrite k cl kind body hk hp hm =>
      have hset := h.setClient (o := []) (c := { cl with
          pc := .write kind body, writeMutex := some .serve }) hk id
        (fun t _ hw => by rw [hm] at hw; cases hw) (fun _ _ _ => rfl) (fun kind' body' hp' => ?_)
        (fun hi' => ?_)
      · exact hset.congr rfl rfl (List.append_nil _).symm
      · rcases hp' with hp' | hp'
        · cases hp'
        · cases hp'
          exact h.quiet k cl kind body hk (Or.inl hp)
      · rw [List.append_nil]
        rcases h.marked k cl hk hi' with hg | hd | hd
        · exact Or.inl hg
        · rw [hp] at hd
          cases kind with
          | hello => exact Or.inr (Or.inr rfl)
          | other => cases hd
          | changed => cases hd
        · rw [hp] at hd
          cases hd
  | @write k cl kind body ok hk hp hok =>
      have hserve := h.locked k cl kind body hk hp
      have hq : (if ok = true then ServePc.read else ServePc.closing).quiet = true := by
        cases ok <;> rfl
      refine h.setClient (c := { cl with
          pc := if ok = true then ServePc.read else ServePc.closing, writeMutex := none }) hk id
        (fun t _ hw => by rw [hserve] at hw; cases hw)
        (fun kind' body' hp' => absurd hp' (ServePc.quiet_not_write hq kind' body'))
        (fun kind' body' hp' => ServePc.quiet_reply hq hp') (fun hi' => ?_)
      cases ok with
      | false => exact Or.inr (Or.inl rfl)
      | true =>
          left
          rcases h.marked k cl hk hi' with hg | hd | hd
          · exact hg.append _
          · rw [hp] at hd
            cases hd
          · rw [hp] at hd
            cases kind with
            | hello =>
                exact ⟨⟨cl.conn, .hello, body.reparse⟩,
                  List.mem_append_right _ (List.mem_singleton.mpr rfl), rfl, rfl⟩
            | other => cases hd
            | changed => cases hd
  | @unwind k cl hk hp hm =>
      refine ⟨fun t j ht => ?_, fun j d kind body hj => h.locked j d kind body (Slots.clear_some hj),
        fun j d kind body hj => h.quiet j d kind body (Slots.clear_some hj),
        fun j d hj => h.marked j d (Slots.clear_some hj)⟩
      -- a broadcast holds `conns_mutex`, which is free
      have hbusy := hl.broadcaster t (by rw [show s.embed t = .write j from ht]; rfl)
      rw [hm] at hbusy
      cases hbusy

theorem marking_reach {s : State} (h : Reach server s) : Marking s := by
  refine h.invariant_of (J := Locks) (fun s hs => locks_reach hs) ?_
    fun s a s' _ hl hi hst => marking_step (show Step s a s' from hst) hl hi
  rintro s ⟨printText, r, rfl⟩
  exact marking_start printText r

/-! ## The order of what a run writes -/

/-- A step keeps the order exactly when it writes no notification into the window. -/
theorem helloFirst_step {s s' : State} {a : Act} (hst : Step s a s') (hm : Marking s)
    (h : HelloFirst s.sent) : HelloFirst s'.sent ↔ OutsideWindow s a := by
  have hquiet : notifiedClient s a = none → OutsideWindow s a := by
    intro hn cl hcl
    rw [hn] at hcl
    cases hcl
  cases hst with
  | @notifyWrite t cl k ok ht hk hok =>
      cases ok with
      | false =>
          refine ⟨fun _ => hquiet rfl, fun _ => ?_⟩
          simpa [frameIf] using h
      | true =>
          have hcl : notifiedClient s (.notifyWrite t true) = some cl := by
            simp [notifiedClient, ht, hk]
          obtain ⟨d, hd, hdi, hdm⟩ := hm.target t k ht
          rw [hk] at hd
          cases hd
          -- the client is initialized, and its serve thread is not writing
          have hpos : Greeted s.sent cl.conn ∨ cl.pc.marked = true := by
            rcases hm.marked k cl hk hdi with hg | hp | hp
            · exact Or.inl hg
            · exact Or.inr hp
            · cases hpc : cl.pc with
              | write kind body =>
                  have hw := hm.locked k cl kind body hk hpc
                  rw [hdm] at hw
                  cases hw
              | _ => rw [hpc] at hp; cases hp
          have hord : HelloFirst (s.sent ++ [⟨cl.conn, .changed, listChanged.reparse⟩]) ↔
              Greeted s.sent cl.conn := by
            rw [helloFirst_snoc]
            exact ⟨fun hs => hs.2 rfl, fun hg => ⟨h, fun _ => hg⟩⟩
          change HelloFirst (s.sent ++ [⟨cl.conn, .changed, listChanged.reparse⟩]) ↔ _
          rw [hord, OutsideWindow, hcl]
          constructor
          · intro hg d hd
            cases hd
            exact fun hw => hw.2 hg
          · intro hout
            rcases hpos with hg | hp
            · exact hg
            · by_contra hno
              exact hout cl rfl ⟨hp, hno⟩
  | @write k cl kind body ok hk hp hok =>
      refine ⟨fun _ => hquiet rfl, fun _ => ?_⟩
      change HelloFirst (s.sent ++ frameIf ok cl.conn kind body)
      rw [helloFirst_quiet (hm.quiet k cl kind body hk (Or.inr hp))]
      exact h
  | _ => exact ⟨fun _ => hquiet rfl, fun _ => h⟩

/-- No notification before the handshake reply. What a run has written has, on every
    connection, no `list_changed` before the reply to the first `initialize`, exactly when no
    step of the run completed a notification to a client in the window. -/
theorem hello_first {s t : State} {tr : List (State × Act)} (hi : server.init s)
    (hr : Run server s tr t) : HelloFirst t.sent ↔ Meets OutsideWindow tr := by
  have hall : ∀ {u : State} {tr' : List (State × Act)}, Run server s tr' u → Reach server u :=
    fun hrun => (ReachWhen.init hi).run hrun fun _ _ => trivial
  induction hr with
  | refl =>
      obtain ⟨printText, r, rfl⟩ := hi
      exact ⟨fun _ => meets_nil _, fun _ => helloFirst_nil⟩
  | @tail tr t a u hrun hst ih =>
      have hm := marking_reach (hall hrun)
      rw [meets_snoc]
      constructor
      · intro hu
        obtain ⟨out, ho⟩ := step_sent (show Step t a u from hst)
        have ht : HelloFirst t.sent := by
          intro l f l' hl hf
          exact hu l f (l' ++ out) (by rw [ho, hl, List.append_assoc]; rfl) hf
        exact ⟨ih.mp ht, (helloFirst_step hst hm ht).mp hu⟩
      · rintro ⟨htr, ha⟩
        exact (helloFirst_step hst hm (ih.mpr htr)).mpr ha

/-- A tool registered after the handshake is announced behind its reply. -/
theorem hello_first_inOrder : ∃ t,
    follow State.next (start (fun _ => []) .empty) (handshake ++
      [.change 0 (.register zoomTool), .notify 0, .lockConns 0, .scan 0, .notifyWrite 0 true]) =
        some t ∧ t.sent.map (·.kind) = [.hello, .changed] ∧ HelloFirst t.sent := by
  have hrun : ((follow State.next (start (fun _ => []) .empty) (handshake ++
      [.change 0 (.register zoomTool), .notify 0, .lockConns 0, .scan 0,
        .notifyWrite 0 true])).map fun t => decide (t.sent.map (·.kind) = [.hello, .changed] ∧
          Meets OutsideWindow (record State.next (start (fun _ => []) .empty) (handshake ++
            [.change 0 (.register zoomTool), .notify 0, .lockConns 0, .scan 0,
              .notifyWrite 0 true])))) = some true := by
    decide +kernel
  obtain ⟨t, ht, hrun⟩ := Option.map_eq_some_iff.mp hrun
  obtain ⟨hk, hm⟩ := of_decide_eq_true hrun
  exact ⟨t, ht, hk, (hello_first ⟨_, _, rfl⟩
    (run_of_follow (M := server) (fun _ _ _ => next_step) _ ht)).mpr hm⟩

/-- A tool registered between `initialized = true` and the reply is announced first. -/
theorem hello_first_overtaken : ∃ t, Reach server t ∧
    t.sent.map (fun f => (f.conn, f.kind)) = [(0, .changed), (0, .hello)] ∧
    ¬ HelloFirst t.sent := by
  have hrun : ((follow State.next (start (fun _ => []) .empty)
      [.accept true, .recv 0 (.msg (request 1 "initialize")), .dispatch 0, .dispatch 0,
        .change 0 (.register zoomTool), .notify 0, .lockConns 0, .scan 0, .notifyWrite 0 true,
        .lockWrite 0, .write 0 true]).map fun t =>
          t.sent.map fun f => (f.conn, f.kind)) = some [(0, .changed), (0, .hello)] := by
    decide +kernel
  obtain ⟨t, ht, hs⟩ := Option.map_eq_some_iff.mp hrun
  refine ⟨t, reach_of_follow ht, hs, fun hfirst => ?_⟩
  cases hsent : t.sent with
  | nil => rw [hsent] at hs; cases hs
  | cons f l =>
      rw [hsent] at hs
      have hf : (f.conn, f.kind) = (0, .changed) := (List.cons.inj hs).1
      obtain ⟨g, hg, -⟩ := hfirst [] f l hsent (congrArg Prod.snd hf)
      cases hg

end DisplayxrMcp.Server
