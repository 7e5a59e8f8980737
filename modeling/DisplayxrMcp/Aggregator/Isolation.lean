/-
  What one backend's messages can do to the calls of another.

  The reader looks a message's id up in the table shared by all backends and
  releases the slot before it compares the owner. So a message leaves the other
  backends' slots alone exactly when it does not name one of them
  (`otherSlots_unchanged_iff`). In a run without such messages every call routed
  to a backend keeps its slot until that backend answers it or is torn down, and
  an answer is relayed: what the agent gets is the message the backend sent, with
  the agent's id put back (`call_kept`).
-/
import DisplayxrMcp.Cjson.Members
import DisplayxrMcp.Aggregator.Reply

namespace DisplayxrMcp

open Lib Cjson Lts

/-- Thread `t` is about to look up an id that a slot of another backend has. -/
def NamesForeign (s : Sys) (t : Nat) : Prop :=
  ∃ idx d msg i fl, s.threads t = .reader idx (.lookup d msg) ∧
    inflightFind s.g (castU64 s.g.platform.castUb d) = some i ∧ s.g.inflight i = some fl ∧
    fl.backend ≠ idx

/-- `NamesForeign`, as a test. -/
def namesForeign (s : Sys) (t : Nat) : Bool :=
  match s.threads t with
  | .reader idx (.lookup d _) =>
      ((inflightFind s.g (castU64 s.g.platform.castUb d)).bind s.g.inflight).any
        fun fl => decide (fl.backend ≠ idx)
  | _ => false

theorem namesForeign_iff {s : Sys} {t : Nat} : namesForeign s t = true ↔ NamesForeign s t := by
  unfold namesForeign NamesForeign
  constructor
  · intro h
    split at h
    · next idx d msg ht =>
        obtain ⟨fl, hfl, hne⟩ := (Option.any_eq_true ..).mp h
        obtain ⟨i, hf, hi⟩ := Option.bind_eq_some_iff.mp hfl
        exact ⟨idx, d, msg, i, fl, ht, hf, hi, of_decide_eq_true hne⟩
    · cases h
  · rintro ⟨idx, d, msg, i, fl, ht, hf, hi, hne⟩
    rw [ht]
    simp [hf, hi, hne]

instance (s : Sys) (t : Nat) : Decidable (NamesForeign s t) :=
  decidable_of_iff _ namesForeign_iff

/-- The slots of the other backends are the same in both states. -/
def OtherSlotsUnchanged (s s' : Sys) (idx : Fin maxBackends) : Prop :=
  ∀ i fl, s.g.inflight i = some fl → fl.backend ≠ idx → s'.g.inflight i = some fl

/-- A reader at its lookup does the lookup. -/
theorem step_lookup {s s' : Sys} {a : Act} {t : Nat} {idx : Fin maxBackends} {d : Dbl} {msg : Json}
    (hst : Step s a s') (ht : s.threads t = .reader idx (.lookup d msg)) (ha : a.thread = some t) :
    a = .lookup t ∧ s' = (s.setG (readerLookup s.g idx d msg).1).setThread t
      (.reader idx (readerLookup s.g idx d msg).2) := by
  have hn := step_reader hst ht ha
  cases a with
  | lookup u =>
      cases ha
      exact ⟨rfl, (Option.some.inj hn).symm⟩
  | _ => cases hn

/-- A reader with a reply in hand writes it. -/
theorem step_relay {s s' : Sys} {a : Act} {t : Nat} {idx : Fin maxBackends} {seq : Option Nat}
    {body : Json} (hst : Step s a s') (ht : s.threads t = .reader idx (.relay seq body))
    (ha : a.thread = some t) :
    s' = (s.emit [⟨seq, body.reparse⟩]).setThread t (.reader idx .top) := by
  have hn := step_reader hst ht ha
  cases a with
  | relay u => exact (Option.some.inj hn).symm
  | _ => cases hn

/-- Looking an id up frees the slot that has it. -/
theorem readerLookup_frees {g : Global} {idx : Fin maxBackends} {d : Dbl} {msg : Json}
    {i : Fin maxInflight} (hf : inflightFind g (castU64 g.platform.castUb d) = some i) :
    (readerLookup g idx d msg).1.inflight i = none := by
  have hr := readerLookup_cases g idx d msg
  generalize readerLookup g idx d msg = r at hr
  cases hr with
  | missed h => rw [hf] at h; cases h
  | foreign j fl hf' _ _ => rw [hf] at hf'; cases hf'; simp
  | refreshed j fl hf' _ _ _ _ _ => rw [hf] at hf'; cases hf'; simp
  | answered j fl hf' _ _ _ => rw [hf] at hf'; cases hf'; simp

/-- A step of backend `idx`'s reader on a message, that is any but its teardown, leaves the
    other backends' slots alone exactly when it does not name one of them. -/
theorem otherSlots_unchanged_iff {s s' : Sys} {a : Act} {t : Nat} {idx : Fin maxBackends}
    {pc : ReaderPc} (hw : Wf s) (ht : s.threads t = .reader idx pc) (ha : a.thread = some t)
    (hmsg : a ≠ .teardown t) (hst : Step s a s') :
    OtherSlotsUnchanged s s' idx ↔ ¬ NamesForeign s t := by
  constructor
  · rintro hsame ⟨idx', d, msg, i, fl, ht', hf, hfl, hne⟩
    obtain ⟨rfl, rfl⟩ := Thread.reader.inj (ht.symm.trans ht')
    obtain ⟨-, rfl⟩ := step_lookup hst ht ha
    have hkept : (readerLookup s.g idx d msg).1.inflight i = some fl := hsame i fl hfl hne
    rw [readerLookup_frees hf] at hkept
    cases hkept
  · intro hno i fl hfl hne
    cases inflight_step hst hw with
    | keep hi hn => rw [hi]; exact hfl
    | counted _ hi hn => rw [hi]; exact hfl
    | taken _ j fl' hfree _ _ hi hn =>
        have hji : i ≠ j := by
          rintro rfl
          rw [hfree] at hfl
          cases hfl
        rw [hi, Slots.put_ne _ _ hji]
        exact hfl
    | @released u idx' d msg j fl' hu hf hfl' hi hn =>
        cases ha
        obtain ⟨rfl, rfl⟩ := Thread.reader.inj (ht.symm.trans hu)
        have hji : i ≠ j := by
          rintro rfl
          exact hno ⟨idx, d, msg, i, fl, ht, hf, hfl, hne⟩
        rw [hi, Slots.clear_ne _ hji]
        exact hfl
    | torn _ _ _ =>
        cases ha
        exact absurd rfl hmsg

/-! ## Runs without foreign lookups -/

/-- No other backend's slot is looked up, a call's id survives printing, and there is a
    local id left for it. -/
def Isolated (s : Sys) (a : Act) : Prop :=
  IdRoom s a ∧ (∀ id ∈ a.callId, id.reparse = id) ∧ ∀ t ∈ a.thread, ¬ NamesForeign s t

instance (s : Sys) (a : Act) : Decidable (Isolated s a) := inferInstanceAs (Decidable (_ ∧ _ ∧ _))

/-- The step is the lookup, by its backend's reader, of the local id of `fl`, which it read in
    `msg`. -/
def AnswersCall (s : Sys) (a : Act) (fl : Inflight) (msg : Json) : Prop :=
  ∃ t d, a = .lookup t ∧ s.threads t = .reader fl.backend (.lookup d msg) ∧
    castU64 s.g.platform.castUb d = fl.localId

/-- The step is the teardown of the backend of `fl`. -/
def TearsDown (s : Sys) (a : Act) (fl : Inflight) : Prop :=
  ∃ t, a = .teardown t ∧ s.threads t = .reader fl.backend .dying

/-- A reader of backend `idx` has read the message in the run. -/
def SentBy (tr : List (Sys × Act)) (idx : Fin maxBackends) (msg : Json) : Prop :=
  ∃ p ∈ tr, ∃ t c, p.2 = .recv t (.msg msg) ∧ p.1.threads t = .reader idx (.read c)

/-- `body` is the message with the agent's id put back: the id is the agent's, also as the agent
    reads it, and the other members are the message's. -/
structure Restores (fl : Inflight) (msg body : Json) : Prop where
  eq : body = restoreId msg fl.origId
  id : idOf body = fl.origId
  printed : idOf body.reparse = fl.origId
  others : body.membersBut [ascii "id"] = msg.membersBut [ascii "id"]

/-- The message, with the agent's id put back, is in its reader's hand or on stdout, as the
    reply to the call of `fl`. -/
def Relayed (fl : Inflight) (msg : Json) (s : Sys) : Prop :=
  ∃ body, Restores fl msg body ∧
    ((∃ t, s.threads t = .reader fl.backend (.relay fl.seq body)) ∨
      ⟨fl.seq, body.reparse⟩ ∈ s.stdout)

theorem restores_restoreId {fl : Inflight} {msg id : Json} (hmsg : (idOf msg).isSome)
    (horig : fl.origId = some id) (hid : id.reparse = id) :
    Restores fl msg (restoreId msg fl.origId) := by
  obtain ⟨old, hold⟩ := Option.isSome_iff_exists.mp hmsg
  have hnew : idOf (restoreId msg fl.origId) = fl.origId := by
    rw [horig, restoreId, idOf, Json.getObjectItem_replace_self id hold]
  refine ⟨rfl, hnew, ?_, ?_⟩
  · rw [idOf_reparse, hnew, horig, Option.map_some, hid]
  · rw [horig, restoreId, Json.membersBut_replace msg id (List.mem_singleton.mpr rfl)]

/-- A message a reader is about to look up has been sent by its backend. -/
theorem sentBy_run {s₀ s : Sys} {tr : List (Sys × Act)} (hi : aggregator.init s₀)
    (hr : Run aggregator s₀ tr s) {t : Nat} {idx : Fin maxBackends} {d : Dbl} {msg : Json}
    (ht : s.threads t = .reader idx (.lookup d msg)) : SentBy tr idx msg := by
  have hall : Meets (fun _ _ => True) tr := fun _ _ => trivial
  have hsent : ∀ t idx d msg, s.threads t = .reader idx (.lookup d msg) → SentBy tr idx msg := by
    refine hr.history (I := fun tr s => ∀ t idx d msg,
      s.threads t = .reader idx (.lookup d msg) → SentBy tr idx msg) ?_ ?_ hall
    · intro t idx d msg ht
      obtain ⟨platform, expose, rfl⟩ := hi
      cases ht
    · intro tr s a s' _ _ _ ih hst t idx d msg ht
      rcases step_looked hst ht with hold | ⟨c, rfl, hread⟩
      · obtain ⟨p, hp, hsent⟩ := ih t idx d msg hold
        exact ⟨p, List.mem_append_left _ hp, hsent⟩
      · exact ⟨_, List.mem_append_right _ (List.mem_singleton.mpr rfl), t, c, rfl, hread⟩
  exact hsent t idx d msg ht

/-- Ids of agent calls in the table survive printing. -/
def OrigSurvive (s : Sys) : Prop :=
  ∀ i fl id, s.g.inflight i = some fl → fl.origId = some id → id.reparse = id

theorem origSurvive_step {s s' : Sys} {a : Act} (hs : InflightStep s s' a)
    (hid : ∀ id ∈ a.callId, id.reparse = id) (h : OrigSurvive s) : OrigSurvive s' := by
  intro i fl id hfl ho
  cases hs with
  | keep hi _ => exact h i fl id (hi ▸ hfl) ho
  | counted _ hi _ => exact h i fl id (hi ▸ hfl) ho
  | taken _ j fl' _ _ horig hi _ =>
      rw [hi, Slots.put_apply] at hfl
      split at hfl
      · cases hfl
        exact hid id (horig ▸ ho)
      · exact h i fl id hfl ho
  | released j fl' _ _ _ hi _ =>
      rw [hi, Slots.clear_apply] at hfl
      split at hfl
      · cases hfl
      · exact h i fl id hfl ho
  | torn _ hi _ =>
      rw [hi] at hfl
      exact h i fl id (keepOthers_some.mp hfl).1 ho

theorem origSurvive_reach {s : Sys} (h : ReachWhen aggregator Isolated s) : OrigSurvive s := by
  refine h.invariant_of (I := OrigSurvive) (fun s hs => wf_reach hs) ?_ ?_
  · rintro s ⟨platform, expose, rfl⟩ i fl id hfl
    cases hfl
  · intro s a s' hok hw hi hst
    exact origSurvive_step (inflight_step hst hw) hok.2.1 hi

/-- One step: the slot stays as it is and is not answered, or its backend is torn down, or it
    is answered and the message is taken for relaying. -/
theorem callKept_step {s s' : Sys} {a : Act} {i : Fin maxInflight} {fl : Inflight}
    (hst : Step s a s') (hiso : Isolated s a) (hw : Wf s) (hl : LocalIds s)
    (ho : OrigSurvive s) (hfl : s.g.inflight i = some fl) (hk : fl.kind = .agent) :
    (s'.g.inflight i = some fl ∧ ∀ msg, ¬ AnswersCall s a fl msg) ∨ TearsDown s a fl ∨
      ∃ msg, AnswersCall s a fl msg ∧ Relayed fl msg s' := by
  by_cases hans : ∃ msg, AnswersCall s a fl msg
  · obtain ⟨msg, t, d, rfl, ht, hd⟩ := hans
    refine Or.inr (Or.inr ⟨msg, ⟨t, d, rfl, ht, hd⟩, restoreId msg fl.origId, ?_, Or.inl ⟨t, ?_⟩⟩)
    · obtain ⟨-, horig⟩ : fl.seq.isSome ∧ fl.origId.isSome := by
        have := hw.kinded i fl hfl
        simp only [Inflight.WellKinded, hk] at this
        exact this
      obtain ⟨id, horig⟩ := Option.isSome_iff_exists.mp horig
      exact restores_restoreId (by rw [hw.lookupId t fl.backend d msg ht]; rfl) horig
        (ho i fl id hfl horig)
    · obtain ⟨-, rfl⟩ := step_lookup hst ht rfl
      have hf : inflightFind s.g (castU64 s.g.platform.castUb d) = some i := by
        rw [hd]
        exact hl.find_eq hfl
      have hr := readerLookup_cases s.g fl.backend d msg
      rw [Sys.setThread_same]
      generalize readerLookup s.g fl.backend d msg = r at hr
      cases hr with
      | missed h => rw [hf] at h; cases h
      | foreign j fl' hf' hfl' hne =>
          rw [hf] at hf'; cases hf'
          rw [hfl] at hfl'; cases hfl'
          exact absurd rfl hne
      | refreshed j fl' hf' hfl' _ hk' _ _ =>
          rw [hf] at hf'; cases hf'
          rw [hfl] at hfl'; cases hfl'
          rw [hk] at hk'
          cases hk'
      | answered j fl' hf' hfl' _ _ =>
          rw [hf] at hf'; cases hf'
          rw [hfl] at hfl'; cases hfl'
          rfl
  · have hno : ∀ msg, ¬ AnswersCall s a fl msg := fun msg h => hans ⟨msg, h⟩
    cases inflight_step hst hw with
    | keep hi hn => exact Or.inl ⟨by rw [hi]; exact hfl, hno⟩
    | counted _ hi hn => exact Or.inl ⟨by rw [hi]; exact hfl, hno⟩
    | taken _ j fl' hfree _ _ hi hn =>
        have hji : i ≠ j := by
          rintro rfl
          rw [hfree] at hfl
          cases hfl
        exact Or.inl ⟨by rw [hi, Slots.put_ne _ _ hji]; exact hfl, hno⟩
    | @released t idx d msg j fl' ht hf hfl' hi hn =>
        have hji : i ≠ j := by
          -- freeing this slot is either an answer or a foreign lookup
          rintro rfl
          rw [hfl] at hfl'
          cases hfl'
          by_cases hidx : fl.backend = idx
          · obtain ⟨fl', hfl', hd⟩ := inflightFind_some hf
            rw [hfl] at hfl'
            cases hfl'
            exact hno msg ⟨t, d, rfl, hidx ▸ ht, hd.symm⟩
          · exact hiso.2.2 t rfl ⟨idx, d, msg, i, fl, ht, hf, hfl, hidx⟩
        exact Or.inl ⟨by rw [hi, Slots.clear_ne _ hji]; exact hfl, hno⟩
    | @torn t idx ht hi hn =>
        by_cases hidx : fl.backend = idx
        · exact Or.inr (Or.inl ⟨t, rfl, hidx ▸ ht⟩)
        · exact Or.inl ⟨by rw [hi, hfl]; exact keepOthers_some.mpr ⟨rfl, hidx⟩, hno⟩

/-- A reply on its way to stdout gets there. -/
theorem relayed_step {s s' : Sys} {a : Act} {fl : Inflight} {msg : Json} (hst : Step s a s')
    (h : Relayed fl msg s) : Relayed fl msg s' := by
  obtain ⟨body, hbody, ⟨t, ht⟩ | hf⟩ := h
  · refine ⟨body, hbody, ?_⟩
    by_cases ha : a.thread = some t
    · rw [step_relay hst ht ha]
      exact Or.inr (by simp)
    · refine Or.inl ⟨t, ?_⟩
      rw [step_thread_other hst ha (by rw [ht]; simp)]
      exact ht
  · obtain ⟨out, hout⟩ := step_stdout hst
    refine ⟨body, hbody, Or.inr ?_⟩
    rw [hout]
    exact List.mem_append_left _ hf

/-- From a state in which slot `i` records a call: it stays recorded until it is answered or
    its backend is torn down, and once answered the backend's message is relayed. -/
theorem call_kept {s₀ s s' : Sys} {tr₀ tr : List (Sys × Act)} {i : Fin maxInflight}
    {fl : Inflight} (hi : aggregator.init s₀) (hr₀ : Run aggregator s₀ tr₀ s)
    (hm₀ : Meets Isolated tr₀) (hfl : s.g.inflight i = some fl) (hk : fl.kind = .agent)
    (hr : Run aggregator s tr s') (hm : Meets Isolated tr) :
    (s'.g.inflight i = some fl ∧ ∀ p ∈ tr, ∀ msg, ¬ AnswersCall p.1 p.2 fl msg) ∨
      (∃ p ∈ tr, TearsDown p.1 p.2 fl) ∨
      ∃ msg, SentBy (tr₀ ++ tr) fl.backend msg ∧ (∃ p ∈ tr, AnswersCall p.1 p.2 fl msg) ∧
        Relayed fl msg s' := by
  have hs : ReachWhen aggregator Isolated s := ⟨s₀, tr₀, hi, hr₀, hm₀⟩
  induction hr with
  | refl => exact Or.inl ⟨hfl, fun p hp => by cases hp⟩
  | @tail tr u a s' hrun hst ih =>
      obtain ⟨hm', hiso⟩ := meets_snoc.mp hm
      have hu := hs.run hrun hm'
      have hl := localIds_reach (fun _ _ h => h.1) hu
      have hlast : (u, a) ∈ tr ++ [(u, a)] := List.mem_append_right _ (List.mem_singleton.mpr rfl)
      rcases ih hm' with ⟨hkept, hno⟩ | ⟨p, hp, htorn⟩ | ⟨msg, hsent, ⟨p, hp, hans⟩, hrel⟩
      · rcases callKept_step hst hiso (wf_reach hu) hl (origSurvive_reach hu) hkept hk with
          ⟨hkept', hno'⟩ | htorn | ⟨msg, hans, hrel⟩
        · refine Or.inl ⟨hkept', fun p hp => ?_⟩
          rcases List.mem_append.mp hp with hp | hp
          · exact hno p hp
          · rw [List.mem_singleton.mp hp]
            exact hno'
        · exact Or.inr (Or.inl ⟨_, hlast, htorn⟩)
        · obtain ⟨t, d, ha, ht, hd⟩ := hans
          obtain ⟨p, hp, hread⟩ := sentBy_run hi (hr₀.trans hrun) ht
          refine Or.inr (Or.inr ⟨msg, ⟨p, ?_, hread⟩, ⟨_, hlast, t, d, ha, ht, hd⟩,
            hrel⟩)
          rw [← List.append_assoc]
          exact List.mem_append_left _ hp
      · exact Or.inr (Or.inl ⟨p, List.mem_append_left _ hp, htorn⟩)
      · obtain ⟨q, hq, hread⟩ := hsent
        refine Or.inr (Or.inr ⟨msg, ⟨q, ?_, hread⟩, ⟨p, List.mem_append_left _ hp, hans⟩,
          relayed_step hst hrel⟩)
        rw [← List.append_assoc]
        exact List.mem_append_left _ hq

/-- Cross-backend isolation. Of a step of a backend's reader on a message, in any reachable
    state: it leaves the other backends' slots alone exactly when it names none of them. Of
    runs in which no step names one: a recorded call stays recorded until its own backend
    answers it or is torn down, and when it is answered the message that backend sent is
    relayed, with the agent's id put back. -/
theorem cross_backend_isolation {s : Sys} (hs : Reach aggregator s) :
    (∀ s' a t idx pc, s.threads t = .reader idx pc → a.thread = some t → a ≠ .teardown t →
      Step s a s' → (OtherSlotsUnchanged s s' idx ↔ ¬ NamesForeign s t)) ∧
    (∀ s₀ tr₀, aggregator.init s₀ → Run aggregator s₀ tr₀ s → Meets Isolated tr₀ →
      ∀ s' tr i fl, s.g.inflight i = some fl → fl.kind = .agent → Run aggregator s tr s' →
        Meets Isolated tr →
        (s'.g.inflight i = some fl ∧ ∀ p ∈ tr, ∀ msg, ¬ AnswersCall p.1 p.2 fl msg) ∨
          (∃ p ∈ tr, TearsDown p.1 p.2 fl) ∨
          ∃ msg, SentBy (tr₀ ++ tr) fl.backend msg ∧ (∃ p ∈ tr, AnswersCall p.1 p.2 fl msg) ∧
            Relayed fl msg s') := by
  constructor
  · intro s' a t idx pc ht ha hmsg hst
    exact otherSlots_unchanged_iff (wf_reach hs) ht ha hmsg hst
  · intro s₀ tr₀ hi hr₀ hm₀ s' tr i fl hfl hk hr hm
    exact call_kept hi hr₀ hm₀ hfl hk hr hm

/-- Two apps; the agent's first call is outstanding at the second. -/
def callAtSecond : List Act :=
  joins 5 0 1 "viewer" (helloResult "viewer") (toolsResult ["zoom"]) ++
    joins 6 2 3 "editor" (helloResult "editor") (toolsResult ["save"]) ++
    [.agentFrame (some (callFrame 7 "editor__save")) true, .readerTop 1, .readerTop 3]

/-- The second app answers. -/
def secondAnswers : List Act := [.recv 3 (.msg (response 1 (fields []))), .lookup 3, .relay 3]

/-- A run without foreign lookups: reading the answer leaves the first app's slots alone, and
    the second app's message is relayed under the agent's id. -/
theorem cross_backend_isolation_secondAnswers : ∃ s fl s' u,
    follow Sys.next (Sys.start plainPlatform false) callAtSecond = some s ∧
      s.g.inflight 0 = some fl ∧ follow Sys.next s secondAnswers = some s' ∧
      s.next (.recv 3 (.msg (response 1 (fields [])))) = some u ∧
      OtherSlotsUnchanged s u 1 ∧ Relayed fl (response 1 (fields [])) s' := by
  have hrun : ((follow Sys.next (Sys.start plainPlatform false) callAtSecond).bind fun s =>
      (s.g.inflight 0).bind fun fl => (follow Sys.next s secondAnswers).bind fun s' =>
        (s.next (.recv 3 (.msg (response 1 (fields []))))).map fun _ =>
          (fl.kind, (s'.g.inflight 0).isNone, namesForeign s 3,
            decide (Meets Isolated (record Sys.next s secondAnswers)),
            (s.threads 3).readerOf)) = some (.agent, true, false, true, some 1) := by
    decide +kernel
  obtain ⟨s, hs, hrun⟩ := Option.bind_eq_some_iff.mp hrun
  obtain ⟨fl, hfl, hrun⟩ := Option.bind_eq_some_iff.mp hrun
  obtain ⟨s', hs', hrun⟩ := Option.bind_eq_some_iff.mp hrun
  obtain ⟨u, hu, hrun⟩ := Option.map_eq_some_iff.mp hrun
  simp only [Prod.mk.injEq, decide_eq_true_eq] at hrun
  obtain ⟨hk, hgone, hno, hmeets, hreader⟩ := hrun
  have hreach : Reach aggregator s := reach_of_follow hs fun _ _ => trivial
  refine ⟨s, fl, s', u, hs, hfl, hs', hu, ?_, ?_⟩
  · obtain ⟨pc, hpc⟩ : ∃ pc, s.threads 3 = .reader 1 pc := by
      cases ht : s.threads 3 with
      | reader idx pc => rw [ht] at hreader; cases hreader; exact ⟨pc, rfl⟩
      | _ => rw [ht] at hreader; cases hreader
    refine ((cross_backend_isolation hreach).1 u _ 3 1 pc hpc rfl (by simp) (next_step hu)).mpr ?_
    rw [← namesForeign_iff, hno]
    simp
  · have hmeets₀ : Meets Isolated (record Sys.next (Sys.start plainPlatform false) callAtSecond) := by
      decide +kernel
    rcases (cross_backend_isolation hreach).2 _ _ ⟨_, _, rfl⟩
        (run_of_follow (fun _ _ _ => next_step) _ hs) hmeets₀ s' _ 0 fl hfl hk
        (run_of_follow (fun _ _ _ => next_step) _ hs') hmeets with
      ⟨hkept, -⟩ | ⟨p, hp, t, ht, -⟩ | ⟨msg, ⟨p, hp, t, c, ht, -⟩, -, hrel⟩
    · rw [hkept] at hgone
      cases hgone
    · have := mem_record _ hp
      rw [ht] at this
      simp [secondAnswers] at this
    · have hmem : p.2 ∈ callAtSecond ++ secondAnswers :=
        List.mem_append.mpr ((List.mem_append.mp hp).imp (mem_record _) (mem_record _))
      rw [ht] at hmem
      simp only [callAtSecond, joins, secondAnswers, List.mem_append, List.mem_cons,
        List.not_mem_nil, reduceCtorEq, or_false, false_or, Act.recv.injEq, Inbound.msg.injEq]
        at hmem
      exact hmem.2 ▸ hrel

/-- The first app sends the local id of the second app's call. -/
def foreignAnswer : List Act := callAtSecond ++ [.recv 1 (.msg (response 1 (fields [])))]

/-- Without the condition it frees the second app's slot. -/
theorem cross_backend_isolation_foreignAnswer : ∃ s s' fl, Reach aggregator s ∧
    (s.threads 1).readerOf = some 0 ∧ Step s (.lookup 1) s' ∧
    s.g.inflight 0 = some fl ∧ fl.backend = 1 ∧ ¬ OtherSlotsUnchanged s s' 0 := by
  have hrun : ((follow Sys.next (Sys.start plainPlatform false) foreignAnswer).bind fun s =>
      (s.g.inflight 0).bind fun fl => (s.next (.lookup 1)).map fun s' =>
        ((s.threads 1).readerOf, fl.backend, (s'.g.inflight 0).isNone)) =
          some (some 0, 1, true) := by
    decide +kernel
  obtain ⟨s, hs, hrun⟩ := Option.bind_eq_some_iff.mp hrun
  obtain ⟨fl, hfl, hrun⟩ := Option.bind_eq_some_iff.mp hrun
  obtain ⟨s', hs', hrun⟩ := Option.map_eq_some_iff.mp hrun
  simp only [Prod.mk.injEq] at hrun
  obtain ⟨hreader, hback, hgone⟩ := hrun
  refine ⟨s, s', fl, reach_of_follow hs fun _ _ => trivial, hreader, next_step hs', hfl, hback,
    fun hsame => ?_⟩
  have hkept := hsame 0 fl hfl (by rw [hback]; decide)
  rw [hkept] at hgone
  cases hgone

end DisplayxrMcp
