/-
  Change notifications of the server.

  A registry call that changed something has its thread on the way through the
  client slots until it has passed the last one. At each slot it writes the
  notification, or finds the client not initialized, or finds its `write_mutex`
  taken and goes on: the code drops the notification rather than wait for a
  serve thread that is writing. `change_notified` says these are the only ways.
-/
import DisplayxrMcp.Server.System

namespace DisplayxrMcp.Server

open Lib Cjson Lts

/-! ## Locks -/

/-- Inside the loop of `broadcast_notification`. -/
def EmbedPc.broadcasting : EmbedPc → Bool
  | .scan _ => true
  | .write _ => true
  | _ => false

/-- Who holds which mutex, and what is known of the slots. -/
structure Locks (s : State) : Prop where
  started : s.threadStarted = true
  broadcaster : ∀ t, (s.embed t).broadcasting = true → s.connsMutex = some t
  scanned : ∀ t i, s.embed t = .scan i → i ≤ maxConns
  serving : ∀ k cl, s.clients k = some cl → cl.writeMutex = some .serve →
    ∃ kind body, cl.pc = .write kind body
  notifying : ∀ k cl t, s.clients k = some cl → cl.writeMutex = some (.embedder t) →
    s.embed t = .write k
  fresh : ∀ k cl, s.clients k = some cl → cl.conn < s.conns

theorem locks_start (printText : Json → CStr) (r : Registry) : Locks (start printText r) := by
  refine ⟨rfl, ?_, ?_, ?_, ?_, ?_⟩
  · intro t h; cases h
  · intro t i h; cases h
  · intro k cl h; cases h
  · intro k cl t h; cases h
  · intro k cl h; cases h

/-- A step of serve thread `k` that leaves the slot's mutex consistent. -/
theorem Locks.setClient {s : State} (h : Locks s) {k : Fin maxConns} {cl c : Client}
    (hk : s.clients k = some cl) (hc : c.conn = cl.conn)
    (hs : c.writeMutex = some .serve → ∃ kind body, c.pc = .write kind body)
    (hn : ∀ t, c.writeMutex = some (.embedder t) → cl.writeMutex = some (.embedder t)) :
    Locks (s.setClient k c) := by
  refine ⟨h.started, h.broadcaster, h.scanned, ?_, ?_, ?_⟩
  · intro j d hj hw
    rcases Slots.put_some hj with ⟨-, rfl⟩ | hj
    · exact hs hw
    · exact h.serving j d hj hw
  · intro j d t hj hw
    rcases Slots.put_some hj with ⟨rfl, rfl⟩ | hj
    · exact h.notifying j cl t hk (hn t hw)
    · exact h.notifying j d t hj hw
  · intro j d hj
    rcases Slots.put_some hj with ⟨-, rfl⟩ | hj
    · rw [hc]; exact h.fresh k cl hk
    · exact h.fresh j d hj

/-- An embedder thread moves where it holds no client's mutex. -/
theorem Locks.setEmbed {s : State} (h : Locks s) {t : Nat} {pc : EmbedPc}
    (hfree : ∀ k cl, s.clients k = some cl → cl.writeMutex ≠ some (.embedder t))
    (hb : pc.broadcasting = true → s.connsMutex = some t)
    (hi : ∀ i, pc = .scan i → i ≤ maxConns) : Locks (s.setEmbed t pc) := by
  refine ⟨h.started, ?_, ?_, h.serving, ?_, h.fresh⟩
  · intro u hu
    by_cases hut : u = t
    · subst hut
      rw [State.setEmbed_same] at hu
      exact hb hu
    · rw [State.setEmbed_ne _ _ hut] at hu
      exact h.broadcaster u hu
  · intro u i hu
    by_cases hut : u = t
    · subst hut
      rw [State.setEmbed_same] at hu
      exact hi i hu
    · rw [State.setEmbed_ne _ _ hut] at hu
      exact h.scanned u i hu
  · intro k cl u hk hw
    have hut : u ≠ t := by
      rintro rfl
      exact hfree k cl hk hw
    rw [State.setEmbed_ne _ _ hut]
    exact h.notifying k cl u hk hw

theorem Locks.notWriting {s : State} (h : Locks s) {t : Nat} {pc : EmbedPc} (ht : s.embed t = pc)
    (hpc : ∀ k, pc ≠ .write k) : ∀ k cl, s.clients k = some cl →
      cl.writeMutex ≠ some (.embedder t) := by
  intro k cl hk hw
  have hwrite := h.notifying k cl t hk hw
  rw [ht] at hwrite
  exact hpc k hwrite

/-- A broadcasting thread takes a free `write_mutex`. -/
theorem Locks.take {s : State} (h : Locks s) {t : Nat} {k : Fin maxConns} {cl : Client}
    (ht : s.embed t = .scan k) (hk : s.clients k = some cl) :
    Locks ((s.setClient k { cl with writeMutex := some (.embedder t) }).setEmbed t (.write k)) := by
  have hold : ∀ j d, s.clients j = some d → d.writeMutex ≠ some (.embedder t) :=
    h.notWriting ht (fun _ => by simp)
  refine ⟨h.started, ?_, ?_, ?_, ?_, ?_⟩
  · intro u hu
    by_cases hut : u = t
    · subst hut
      exact h.broadcaster u (by rw [ht]; rfl)
    · rw [State.setEmbed_ne _ _ hut] at hu
      exact h.broadcaster u hu
  · intro u i hu
    by_cases hut : u = t
    · subst hut
      rw [State.setEmbed_same] at hu
      cases hu
    · rw [State.setEmbed_ne _ _ hut] at hu
      exact h.scanned u i hu
  · intro j d hj hw
    rcases Slots.put_some hj with ⟨-, rfl⟩ | hj
    · cases hw
    · exact h.serving j d hj hw
  · intro j d u hj hw
    rcases Slots.put_some hj with ⟨rfl, rfl⟩ | hj
    · cases hw
      exact State.setEmbed_same _ _ _
    · have hut : u ≠ t := fun he => hold j d hj (he ▸ hw)
      rw [State.setEmbed_ne _ _ hut]
      exact h.notifying j d u hj hw
  · intro j d hj
    rcases Slots.put_some hj with ⟨-, rfl⟩ | hj
    · exact h.fresh k cl hk
    · exact h.fresh j d hj

theorem dispatchStep_not_write {r : Registry} {pc pc' : ServePc} {mark : Bool}
    (h : dispatchStep r pc = some (pc', mark)) : ∀ kind body, pc ≠ .write kind body := by
  rintro kind body rfl
  cases h

theorem locks_step {s s' : State} {a : Act} (hst : Step s a s') (h : Locks s) : Locks s' := by
  -- a serve thread that does not hold its mutex moves
  have hserve : ∀ {k : Fin maxConns} {cl cl' : Client}, s.clients k = some cl →
      cl'.conn = cl.conn → cl'.writeMutex = cl.writeMutex →
      (∀ kind body, cl.pc ≠ .write kind body) → Locks (s.setClient k cl') := by
    intro k cl cl' hk hc hm hpc
    refine h.setClient hk hc (fun hw => ?_) (fun t hw => hm ▸ hw)
    obtain ⟨kind, body, hp⟩ := h.serving k cl hk (hm ▸ hw)
    exact absurd hp (hpc kind body)
  cases hst with
  | @accepted k hm hk =>
      have hfree := Slots.firstFree_some hk
      refine ⟨h.started, h.broadcaster, h.scanned, ?_, ?_, ?_⟩
      · intro j d hj hw
        rcases Slots.put_some hj with ⟨-, rfl⟩ | hj
        · cases hw
        · exact h.serving j d hj hw
      · intro j d t hj hw
        rcases Slots.put_some hj with ⟨-, rfl⟩ | hj
        · cases hw
        · exact h.notifying j d t hj hw
      · intro j d hj
        rcases Slots.put_some hj with ⟨-, rfl⟩ | hj
        · exact Nat.lt_succ_self _
        · exact Nat.lt_succ_of_lt (h.fresh j d hj)
  | rejected hm hk =>
      exact ⟨h.started, h.broadcaster, h.scanned, h.serving, h.notifying,
        fun j d hj => Nat.lt_succ_of_lt (h.fresh j d hj)⟩
  | @change t op ht =>
      have hr : Locks { s with registry := (op.apply s.registry).1 } :=
        ⟨h.started, h.broadcaster, h.scanned, h.serving, h.notifying, h.fresh⟩
      refine hr.setEmbed (h.notWriting ht fun _ => by simp) ?_ ?_
      · split <;> (intro hb; cases hb)
      · split <;> (intro i hi; cases hi)
  | @notify t ht =>
      refine h.setEmbed (h.notWriting ht fun _ => by simp) ?_ ?_
      · split <;> (intro hb; cases hb)
      · split <;> (intro i hi; cases hi)
  | @lockConns t ht hm =>
      have hnone : ∀ u, (s.embed u).broadcasting = false := by
        intro u
        cases hb : (s.embed u).broadcasting with
        | false => rfl
        | true =>
            have := h.broadcaster u hb
            rw [hm] at this
            cases this
      have hr : Locks { s with connsMutex := some t } := by
        refine ⟨h.started, fun u hu => ?_, h.scanned, h.serving, h.notifying, h.fresh⟩
        rw [hnone u] at hu
        cases hu
      refine hr.setEmbed (h.notWriting ht fun _ => by simp) (fun _ => rfl) ?_
      intro i hi
      cases hi
      exact Nat.zero_le _
  | @scanSkip t k ht hk =>
      refine h.setEmbed (h.notWriting ht fun _ => by simp)
        (fun _ => h.broadcaster t (by rw [ht]; rfl)) ?_
      intro i hi
      cases hi
      exact k.isLt
  | @scanBusy t cl k ht hk hi hb =>
      refine h.setEmbed (h.notWriting ht fun _ => by simp)
        (fun _ => h.broadcaster t (by rw [ht]; rfl)) ?_
      intro i hi
      cases hi
      exact k.isLt
  | scanTake ht hk hi hb => exact h.take ht hk
  | @scanDone t ht =>
      have hself := h.broadcaster t (by rw [ht]; rfl)
      have hidle : Locks (s.setEmbed t .idle) :=
        h.setEmbed (h.notWriting ht fun _ => by simp) (fun hb => by cases hb)
          (fun i hi => by cases hi)
      refine ⟨hidle.started, ?_, hidle.scanned, hidle.serving, hidle.notifying, hidle.fresh⟩
      -- the only broadcasting thread has stopped
      intro u hu
      have hother := hidle.broadcaster u hu
      rw [State.setEmbed_connsMutex, hself] at hother
      cases hother
      have hstop := State.setEmbed_same s t .idle
      have hu' : ((s.setEmbed t .idle).embed t).broadcasting = true := hu
      rw [hstop] at hu'
      cases hu'
  | @notifyWrite t cl k ok ht hk hok =>
      have hput : Locks (s.setClient k
          { cl with writeMutex := none, aborted := cl.aborted || !ok }) :=
        h.setClient hk rfl (fun hw => by cases hw) (fun _ hw => by cases hw)
      have hlog : Locks ((s.setClient k
          { cl with writeMutex := none, aborted := cl.aborted || !ok }).log
            (frameIf ok cl.conn .changed listChanged)) :=
        ⟨hput.started, hput.broadcaster, hput.scanned, hput.serving, hput.notifying, hput.fresh⟩
      refine hlog.setEmbed ?_ (fun _ => h.broadcaster t (by rw [ht]; rfl)) ?_
      · intro j d hj hw
        have hj' : s.clients.put k { cl with writeMutex := none, aborted := cl.aborted || !ok } j =
            some d := hj
        rw [Slots.put_apply] at hj'
        split at hj'
        · cases hj'
          cases hw
        · next hne =>
            have hwrite := h.notifying j d t hj' hw
            rw [ht] at hwrite
            exact hne (EmbedPc.write.inj hwrite).symm
      · intro i hi
        cases hi
        exact k.isLt
  | recv hk hp => exact hserve hk rfl rfl (by rw [hp]; exact fun _ _ => by simp)
  | dispatch hk hp => exact hserve hk rfl rfl (dispatchStep_not_write hp)
  | handler hk hp => exact hserve hk rfl rfl (by rw [hp]; exact fun _ _ => by simp)
  | lockWrite hk hp hm =>
      exact h.setClient hk rfl (fun _ => ⟨_, _, rfl⟩) (fun _ hw => by cases hw)
  | @write k cl kind body ok hk hp hok =>
      have hput := h.setClient (c := { cl with
        pc := if ok then .read else .closing, writeMutex := none }) hk rfl
        (fun hw => by cases hw) (fun _ hw => by cases hw)
      exact ⟨hput.started, hput.broadcaster, hput.scanned, hput.serving, hput.notifying,
        hput.fresh⟩
  | @unwind k cl hk hp hm =>
      exact ⟨h.started, h.broadcaster, h.scanned, fun j d hj => h.serving j d (Slots.clear_some hj),
        fun j d t hj => h.notifying j d t (Slots.clear_some hj),
        fun j d hj => h.fresh j d (Slots.clear_some hj)⟩

theorem locks_reach {s : State} (h : Reach server s) : Locks s := by
  refine h.invariant ?_ fun s a s' _ hi hst => locks_step (show Step s a s' from hst) hi
  rintro s ⟨printText, r, rfl⟩
  exact locks_start printText r

/-! ## The clients over a step -/

/-- Frames written only accumulate. -/
theorem step_sent {s s' : State} {a : Act} (hst : Step s a s') :
    ∃ out, s'.sent = s.sent ++ out := by
  cases hst with
  | notifyWrite ht hk hok => exact ⟨_, rfl⟩
  | write hk hp hok => exact ⟨_, rfl⟩
  | _ => exact ⟨[], (List.append_nil _).symm⟩

/-- The client of a slot after a step was there before, with at least its flags, or has just
    connected and got the first free slot. -/
theorem step_client {s s' : State} {a : Act} (hst : Step s a s') {k : Fin maxConns} {cl' : Client}
    (hk' : s'.clients k = some cl') :
    (s.clients.firstFree = some k ∧ cl'.conn = s.conns) ∨
      ∃ cl, s.clients k = some cl ∧ cl'.conn = cl.conn ∧
        (cl.initialized = true → cl'.initialized = true) ∧
        (cl.aborted = true → cl'.aborted = true) := by
  have hsame : s.clients k = some cl' → (s.clients.firstFree = some k ∧ cl'.conn = s.conns) ∨
      ∃ cl, s.clients k = some cl ∧ cl'.conn = cl.conn ∧
        (cl.initialized = true → cl'.initialized = true) ∧
        (cl.aborted = true → cl'.aborted = true) :=
    fun h => Or.inr ⟨cl', h, rfl, id, id⟩
  have hput : ∀ {j : Fin maxConns} {d d' : Client}, s.clients j = some d →
      s.clients.put j d' k = some cl' → d'.conn = d.conn →
      (d.initialized = true → d'.initialized = true) → (d.aborted = true → d'.aborted = true) →
      (s.clients.firstFree = some k ∧ cl'.conn = s.conns) ∨ ∃ cl, s.clients k = some cl ∧
        cl'.conn = cl.conn ∧ (cl.initialized = true → cl'.initialized = true) ∧
        (cl.aborted = true → cl'.aborted = true) := by
    intro j d d' hj hp hc hi ha
    rw [Slots.put_apply] at hp
    split at hp
    · next he =>
        cases hp
        exact Or.inr ⟨d, he ▸ hj, hc, hi, ha⟩
    · exact hsame hp
  cases hst with
  | @accepted j hm hj =>
      have hk'' : s.clients.put j ⟨s.conns, false, .read, none, false⟩ k = some cl' := hk'
      rw [Slots.put_apply] at hk''
      split at hk''
      · next he =>
          cases hk''
          exact Or.inl ⟨he ▸ hj, rfl⟩
      · exact hsame hk''
  | @unwind j cl hj hp hm =>
      have hk'' : s.clients.clear j k = some cl' := hk'
      rw [Slots.clear_apply] at hk''
      split at hk''
      · cases hk''
      · exact hsame hk''
  | scanTake ht hj hi hb => exact hput hj hk' rfl id id
  | notifyWrite ht hj hok =>
      exact hput hj hk' rfl id (fun ha => by simp only [ha, Bool.true_or])
  | recv hj hp => exact hput hj hk' rfl id id
  | dispatch hj hp => exact hput hj hk' rfl (fun hi => by simp only [hi, Bool.true_or]) id
  | handler hj hp => exact hput hj hk' rfl id id
  | lockWrite hj hp hm => exact hput hj hk' rfl id id
  | write hj hp hok => exact hput hj hk' rfl id id
  | _ => exact hsame hk'

/-! ## Broadcasts -/

/-- The thread has a broadcast ahead of it that has not passed slot `k`. -/
def EmbedPc.reaches (k : Fin maxConns) : EmbedPc → Prop
  | .idle => False
  | .notify => True
  | .lockConns => True
  | .scan i => i ≤ k
  | .write j => j ≤ k

/-- A broadcast finds the `write_mutex` of the client on connection `c` held by its serve
    thread, which is writing a reply. -/
def FoundBusy (k : Fin maxConns) (c : ConnId) (s : State) (a : Act) : Prop :=
  ∃ t cl kind body, a = .scan t ∧ s.embed t = .scan k ∧ s.clients k = some cl ∧ cl.conn = c ∧
    cl.initialized = true ∧ cl.writeMutex = some .serve ∧ cl.pc = .write kind body

/-- A notification on connection `c`, complete, since `s`. -/
def NotifiedSince (s t : State) (c : ConnId) : Prop :=
  ∃ out, t.sent = s.sent ++ out ∧ ∃ f ∈ out, f.conn = c ∧ f.kind = .changed

theorem NotifiedSince.step {s t u : State} {a : Act} {c : ConnId} (h : NotifiedSince s t c)
    (hst : Step t a u) : NotifiedSince s u c := by
  obtain ⟨out, ho, f, hf, hfc⟩ := h
  obtain ⟨out', ho'⟩ := step_sent hst
  exact ⟨out ++ out', by rw [ho', ho, List.append_assoc], f, List.mem_append_left _ hf, hfc⟩

theorem NotifiedSince.behind {s t u : State} {c : ConnId} {out : List SentFrame}
    (hs : t.sent = s.sent ++ out) (h : NotifiedSince t u c) : NotifiedSince s u c := by
  obtain ⟨out', ho', f, hf, hfc⟩ := h
  exact ⟨out ++ out', by rw [ho', hs, List.append_assoc], f, List.mem_append_right _ hf, hfc⟩

/-- A broadcast on its way to the slot of an initialized client gets closer, finds the client's
    mutex taken, writes the notification, or aborts the connection. -/
theorem reaches_step {s s' : State} {a : Act} (hst : Step s a s') (hl : Locks s) {t : Nat}
    {k : Fin maxConns} {cl : Client} (hk : s.clients k = some cl) (hi : cl.initialized = true)
    (ht : (s.embed t).reaches k) :
    (s'.embed t).reaches k ∨ FoundBusy k cl.conn s a ∨ NotifiedSince s s' cl.conn ∨
      ∀ cl', s'.clients k = some cl' → cl'.aborted = true := by
  have hmove : ∀ {u : Nat} {pc : EmbedPc} {s₀ : State}, s₀.embed = s.embed →
      (u = t → pc.reaches k) → ((s₀.setEmbed u pc).embed t).reaches k := by
    intro u pc s₀ he hr
    by_cases hut : t = u
    · subst hut
      rw [State.setEmbed_same]
      exact hr rfl
    · rw [State.setEmbed_ne _ _ hut, he]
      exact ht
  cases hst with
  | @change u op hu =>
      refine Or.inl (hmove rfl fun he => ?_)
      rw [← he, hu] at ht
      exact ht.elim
  | @notify u hu =>
      refine Or.inl (hmove rfl fun _ => ?_)
      rw [if_pos hl.started]
      trivial
  | @lockConns u hu hm => exact Or.inl (hmove rfl fun _ => Nat.zero_le _)
  | @scanSkip u j hu hj =>
      refine Or.inl (hmove rfl fun he => ?_)
      rw [← he, hu] at ht
      have hne : j ≠ k := by
        rintro rfl
        rw [hj cl hk] at hi
        cases hi
      exact Nat.lt_of_le_of_ne ht (fun e => hne (Fin.ext e))
  | @scanBusy u d j hu hj hd hb =>
      by_cases hjk : j = k
      · -- only a serve thread can hold the mutex while `u` broadcasts
        subst hjk
        rw [hk] at hj
        cases hj
        refine Or.inr (Or.inl ?_)
        cases hw : cl.writeMutex with
        | none => exact absurd hw hb
        | some w =>
            cases w with
            | serve =>
                obtain ⟨kind, body, hp⟩ := hl.serving j cl hk hw
                exact ⟨u, cl, kind, body, rfl, hu, hk, rfl, hi, hw, hp⟩
            | embedder v =>
                have hv := hl.notifying j cl v hk hw
                have hvm := hl.broadcaster v (by rw [hv]; rfl)
                rw [hl.broadcaster u (by rw [hu]; rfl)] at hvm
                cases hvm
                rw [hu] at hv
                cases hv
      · refine Or.inl (hmove rfl fun he => ?_)
        rw [← he, hu] at ht
        exact Nat.lt_of_le_of_ne ht (fun e => hjk (Fin.ext e))
  | @scanTake u d j hu hj hd hb =>
      refine Or.inl (hmove rfl fun he => ?_)
      rw [← he, hu] at ht
      exact ht
  | @scanDone u hu =>
      refine Or.inl (hmove rfl fun he => ?_)
      rw [← he, hu] at ht
      exact absurd k.isLt (Nat.not_lt.mpr ht)
  | @notifyWrite u d j ok hu hj hok =>
      by_cases hjk : j = k
      · subst hjk
        rw [hk] at hj
        cases hj
        cases ok with
        | true => exact Or.inr (Or.inr (Or.inl ⟨_, rfl, _, List.mem_singleton.mpr rfl, rfl, rfl⟩))
        | false =>
            refine Or.inr (Or.inr (Or.inr fun cl' hcl' => ?_))
            simp only [State.setEmbed_clients, State.log_clients, State.setClient_clients,
              Slots.put_same] at hcl'
            cases hcl'
            simp
      · refine Or.inl (hmove rfl fun he => ?_)
        rw [← he, hu] at ht
        exact Nat.lt_of_le_of_ne ht (fun e => hjk (Fin.ext e))
  | _ => exact Or.inl ht

/-! ## Notification of a change -/

/-- What is known of slot `k` after a change made at `s` while the client on connection `c` was
    initialized there; `tr` is the run since. -/
structure Informed (s : State) (k : Fin maxConns) (c : ConnId) (tr : List (State × Act))
    (t : State) : Prop where
  sent : ∃ out, t.sent = s.sent ++ out
  old : c < t.conns
  informed : ∀ cl, t.clients k = some cl → cl.conn = c → cl.initialized = true ∧
    (cl.aborted = true ∨ NotifiedSince s t c ∨ (∃ p ∈ tr, FoundBusy k c p.1 p.2) ∨
      ∃ u, (t.embed u).reaches k)

theorem step_conns {s s' : State} {a : Act} (hst : Step s a s') : s.conns ≤ s'.conns := by
  cases hst with
  | accepted hm hk => exact Nat.le_succ _
  | rejected hm hk => exact Nat.le_succ _
  | _ => exact Nat.le_refl _

theorem informed_step {s t t' : State} {a : Act} {k : Fin maxConns} {c : ConnId}
    {tr : List (State × Act)} (hst : Step t a t') (hl : Locks t) (h : Informed s k c tr t) :
    Informed s k c (tr ++ [(t, a)]) t' := by
  obtain ⟨out, ho⟩ := h.sent
  obtain ⟨out', ho'⟩ := step_sent hst
  refine ⟨⟨out ++ out', by rw [ho', ho, List.append_assoc]⟩,
    Nat.lt_of_lt_of_le h.old (step_conns hst), fun cl' hk' hc' => ?_⟩
  rcases step_client hst hk' with ⟨-, hnew⟩ | ⟨cl, hk, hc, hinit, habort⟩
  · -- a connection made now has another number
    rw [hc'] at hnew
    exact absurd hnew (Nat.ne_of_lt h.old)
  · obtain ⟨hi, hrest⟩ := h.informed cl hk (hc ▸ hc')
    refine ⟨hinit hi, ?_⟩
    rcases hrest with ha | hn | ⟨p, hp, hbusy⟩ | ⟨u, hu⟩
    · exact Or.inl (habort ha)
    · exact Or.inr (Or.inl (hn.step hst))
    · exact Or.inr (Or.inr (Or.inl ⟨p, List.mem_append_left _ hp, hbusy⟩))
    · have hcl : cl.conn = c := hc ▸ hc'
      rcases reaches_step hst hl hk hi hu with hr | hb | hn | ha
      · exact Or.inr (Or.inr (Or.inr ⟨u, hr⟩))
      · refine Or.inr (Or.inr (Or.inl ⟨(t, a), ?_, hcl ▸ hb⟩))
        exact List.mem_append_right _ (List.mem_singleton.mpr rfl)
      · exact Or.inr (Or.inl (hcl ▸ hn.behind ho))
      · exact Or.inl (ha cl' hk')

/-- A change of the registry reaches every client that was initialized when it was made: in
    every later state with no registry call in progress, a client that is still connected and
    not aborted has been sent `list_changed` since, or a broadcast since has found its
    `write_mutex` held by its serve thread. -/
theorem change_notified {s s' t : State} {tr : List (State × Act)} (h : Reach server s)
    {k : Fin maxConns} {cl : Client} (hk : s.clients k = some cl) (hi : cl.initialized = true)
    {e : Nat} {op : Change} (hchange : (op.apply s.registry).2 = true)
    (hst : Step s (.change e op) s') (hr : Run server s' tr t) (hidle : ∀ u, t.embed u = .idle)
    {cl' : Client} (hk' : t.clients k = some cl') (hc : cl'.conn = cl.conn)
    (halive : cl'.aborted = false) :
    NotifiedSince s' t cl.conn ∨ ∃ p ∈ tr, FoundBusy k cl.conn p.1 p.2 := by
  have hs' : Reach server s' := h.step trivial hst
  have hstart : Informed s' k cl.conn [] s' := by
    refine ⟨⟨[], (List.append_nil _).symm⟩, ?_, fun d hd _ => ?_⟩
    · exact Nat.lt_of_lt_of_le ((locks_reach h).fresh k cl hk) (step_conns hst)
    · cases hst with
      | change he =>
          rw [State.setEmbed_clients] at hd
          have hd' : some cl = some d := hk.symm.trans hd
          cases hd'
          refine ⟨hi, Or.inr (Or.inr (Or.inr ⟨e, ?_⟩))⟩
          rw [State.setEmbed_same, if_pos hchange]
          trivial
  have hinf : Informed s' k cl.conn tr t := by
    have hall : Meets (fun _ _ => True) tr := fun _ _ => trivial
    refine hr.history hstart ?_ hall
    intro tr₀ u a v hrun _ _ hI huv
    exact informed_step (show Step u a v from huv)
      (locks_reach (hs'.run hrun fun _ _ => trivial)) hI
  obtain ⟨-, hrest⟩ := hinf.informed cl' hk' hc
  rcases hrest with ha | hn | hb | ⟨u, hu⟩
  · rw [halive] at ha
    cases ha
  · exact Or.inl hn
  · exact Or.inr hb
  · rw [hidle u] at hu
    exact hu.elim

/-! ## Histories -/

/-- An embedder thread is moved by its own steps only. -/
theorem step_embed_other {s s' : State} {a : Act} (hst : Step s a s') {u : Nat}
    (hu : a.embedder ≠ some u) : s'.embed u = s.embed u := by
  have hset : ∀ {s₀ : State} {t : Nat} {pc : EmbedPc}, some t ≠ some u →
      (s₀.setEmbed t pc).embed u = s₀.embed u := by
    intro s₀ t pc hne
    exact State.setEmbed_ne _ _ fun e => hne (by rw [e])
  cases hst with
  | change ht => exact hset hu
  | notify ht => exact hset hu
  | lockConns ht hm => exact hset hu
  | scanSkip ht hk => exact hset hu
  | scanBusy ht hk hi hb => exact hset hu
  | scanTake ht hk hi hb => exact hset hu
  | scanDone ht => exact hset hu
  | notifyWrite ht hk hok => exact hset hu
  | _ => rfl

/-- Labels of embedder 0 and of serve threads leave the other embedders as they are. -/
theorem follow_embed_other {s t : State} {as : List Act} (h : follow State.next s as = some t)
    (ha : ∀ a ∈ as, ∀ u ∈ a.embedder, u = 0) (u : Nat) : t.embed (u + 1) = s.embed (u + 1) := by
  have hr := run_of_follow (M := server) (fun _ _ _ => next_step) as h
  have hzero : Meets (fun _ a => ∀ u ∈ Act.embedder a, u = 0) (record State.next s as) :=
    fun p hp => ha _ (mem_record as hp)
  refine hr.invariant (I := fun v => v.embed (u + 1) = s.embed (u + 1)) ?_ hzero rfl
  intro v a w hv hI hst
  refine (step_embed_other (show Step v a w from hst) fun he => ?_).trans hI
  exact absurd (hv _ he) (Nat.succ_ne_zero u)

/-- A request without parameters. -/
def request (id : Nat) (method : String) : Json :=
  fields [("jsonrpc", text "2.0"), ("id", Json.ofNat id), ("method", text method)]

/-- A client connects and initializes. -/
def handshake : List Act :=
  [.accept true, .recv 0 (.msg (request 1 "initialize")), .dispatch 0, .dispatch 0, .lockWrite 0,
    .write 0 true]

/-- A tool of the embedder. -/
def zoomTool : Tool := ⟨ascii "zoom", none, none, .app⟩

/-- The other seven slots are free, and the broadcast is over. -/
def restOfScan : List Act := List.replicate 8 (.scan 0)

/-- Embedder thread 0 alone has registered a tool, and is done: no embedder thread is at work. -/
theorem embed_idle {as as' : List Act} {s s' t : State} {tool : Tool}
    (hs : follow State.next (start (fun _ => []) .empty) as = some s)
    (hs' : s.next (.change 0 (.register tool)) = some s') (ht : follow State.next s' as' = some t)
    (has : ∀ a ∈ as, ∀ u ∈ a.embedder, u = 0) (has' : ∀ a ∈ as', ∀ u ∈ a.embedder, u = 0)
    (hidle : t.embed 0 = .idle) (u : Nat) : t.embed u = .idle := by
  cases u with
  | zero => exact hidle
  | succ u =>
      rw [follow_embed_other ht has' u,
        step_embed_other (next_step hs') (by simp [Act.embedder]),
        follow_embed_other hs has u]
      rfl

/-- Registering a tool reaches the connected client. -/
theorem change_notified_zoom : ∃ s s' t,
    follow State.next (start (fun _ => []) .empty) handshake = some s ∧
    s.next (.change 0 (.register zoomTool)) = some s' ∧
    follow State.next s' ([.notify 0, .lockConns 0, .scan 0, .notifyWrite 0 true] ++ restOfScan) =
      some t ∧
    (NotifiedSince s' t 0 ∨ ∃ p ∈ record State.next s'
      ([.notify 0, .lockConns 0, .scan 0, .notifyWrite 0 true] ++ restOfScan),
        FoundBusy 0 0 p.1 p.2) := by
  have hrun : ((follow State.next (start (fun _ => []) .empty) handshake).bind fun s =>
      (s.next (.change 0 (.register zoomTool))).bind fun s' =>
        (follow State.next s'
          ([.notify 0, .lockConns 0, .scan 0, .notifyWrite 0 true] ++ restOfScan)).bind fun t =>
            (s.clients 0).bind fun cl => (t.clients 0).map fun cl' =>
              decide (cl.initialized = true ∧ cl.conn = 0 ∧ cl'.conn = cl.conn ∧
                cl'.aborted = false ∧
                ((Change.register zoomTool).apply s.registry).2 = true ∧ t.embed 0 = .idle)) =
        some true := by
    decide +kernel
  obtain ⟨s, hs, hrun⟩ := Option.bind_eq_some_iff.mp hrun
  obtain ⟨s', hs', hrun⟩ := Option.bind_eq_some_iff.mp hrun
  obtain ⟨t, ht, hrun⟩ := Option.bind_eq_some_iff.mp hrun
  obtain ⟨cl, hcl, hrun⟩ := Option.bind_eq_some_iff.mp hrun
  obtain ⟨cl', hcl', hrun⟩ := Option.map_eq_some_iff.mp hrun
  obtain ⟨hi, hzero, hc, halive, hchange, hidle⟩ := of_decide_eq_true hrun
  have hquiet : ∀ u, t.embed u = .idle := embed_idle hs hs' ht (by decide) (by decide) hidle
  refine ⟨s, s', t, hs, hs', ht, ?_⟩
  have hn := change_notified (reach_of_follow hs) hcl hi hchange (next_step hs')
    (run_of_follow (M := server) (fun _ _ _ => next_step) _ ht) hquiet hcl' hc halive
  rw [hzero] at hn
  exact hn

/-- While the reply to `tools/list` is being written a tool is registered: its notification is
    dropped, and the client keeps the empty list. -/
theorem change_notified_dropped : ∃ s s' t cl,
    Reach server s ∧ (∃ cl₀, s.clients 0 = some cl₀ ∧ cl₀.initialized = true ∧ cl₀.conn = cl.conn) ∧
    Step s (.change 0 (.register zoomTool)) s' ∧ (∃ tr, Run server s' tr t) ∧
    (∀ u, t.embed u = .idle) ∧ t.clients 0 = some cl ∧ cl.initialized = true ∧
    cl.aborted = false ∧ buildToolsList t.registry = [listEntry zoomTool] ∧
    t.sent.getLast? = some ⟨cl.conn, .other,
      (jsonrpcResult (Json.ofNat 2) (toolsListResult [] [])).reparse⟩ ∧
    ¬ NotifiedSince s' t cl.conn := by
  have hrun : ((follow State.next (start (fun _ => []) .empty) (handshake ++
      [.recv 0 (.msg (request 2 "tools/list")), .dispatch 0, .dispatch 0, .lockWrite 0])).bind
        fun s => (s.next (.change 0 (.register zoomTool))).bind fun s' =>
          (follow State.next s'
            ([.notify 0, .lockConns 0, .scan 0] ++ restOfScan ++ [.write 0 true])).bind fun t =>
              (s.clients 0).bind fun cl₀ => (t.clients 0).map fun cl =>
                decide (cl₀.initialized = true ∧ cl₀.conn = cl.conn ∧ t.embed 0 = .idle ∧
                  cl.initialized = true ∧ cl.aborted = false ∧
                  buildToolsList t.registry = [listEntry zoomTool] ∧
                  t.sent.getLast? = some ⟨cl.conn, .other,
                    (jsonrpcResult (Json.ofNat 2) (toolsListResult [] [])).reparse⟩ ∧
                  ∀ f ∈ t.sent, f.kind ≠ .changed)) = some true := by
    decide +kernel
  obtain ⟨s, hs, hrun⟩ := Option.bind_eq_some_iff.mp hrun
  obtain ⟨s', hs', hrun⟩ := Option.bind_eq_some_iff.mp hrun
  obtain ⟨t, ht, hrun⟩ := Option.bind_eq_some_iff.mp hrun
  obtain ⟨cl₀, hcl₀, hrun⟩ := Option.bind_eq_some_iff.mp hrun
  obtain ⟨cl, hcl, hrun⟩ := Option.map_eq_some_iff.mp hrun
  obtain ⟨hi₀, hc, hidle, hi, ha, htools, hlast, hnone⟩ := of_decide_eq_true hrun
  refine ⟨s, s', t, cl, reach_of_follow hs, ⟨cl₀, hcl₀, hi₀, hc⟩, next_step hs',
    ⟨_, run_of_follow (fun _ _ _ => next_step) _ ht⟩,
    embed_idle hs hs' ht (by decide) (by decide) hidle, hcl, hi, ha, htools, hlast, ?_⟩
  rintro ⟨out, ho, f, hf, -, hk⟩
  exact hnone f (ho ▸ List.mem_append_right _ hf) hk

end DisplayxrMcp.Server
