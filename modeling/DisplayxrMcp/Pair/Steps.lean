/-
  The aggregator's steps, on the connection of one server.

  Most steps do not concern the connection (`Tied.quiet`). The others are the
  steps of the setup thread that holds it and of the reader that reads it, and a
  call forwarded to its backend, one lemma each. `Tied.agg` puts them together.
-/
import DisplayxrMcp.Pair.Follow

namespace DisplayxrMcp.Pair

open Lib Cjson Lts Server

@[simp] theorem Peer.exchange_self (p : Peer) : p.exchange p.outbox [] = p := by
  simp [Peer.exchange]

theorem Peer.exchange_asks (p : Peer) (rest : List Frame) (sent : List Json) :
    (p.exchange rest sent).asks = rest.filterMap Frame.answers ++ p.serving.toList ++
      p.inbox.filterMap askOf ++ sent.filterMap askOf := by
  simp [Peer.exchange, Peer.asks]

/-- What is written to the server is asked last. -/
theorem Peer.sent_asks (p : Peer) (sent : List Json) :
    (p.exchange p.outbox sent).asks = p.asks ++ sent.filterMap askOf := by
  rw [Peer.exchange_asks]
  rfl

/-- What is read from the server was asked first. -/
theorem Peer.read_asks {p : Peer} {f : Frame} {rest : List Frame} (h : p.outbox = f :: rest) :
    p.asks = f.answers.toList ++ (p.exchange rest []).asks := by
  rw [Peer.exchange_asks, Peer.asks, h]
  cases hf : f.answers <;> simp [hf]

theorem Peer.Ok.sent {p : Peer} (h : p.Ok) (sent : List Json) : (p.exchange p.outbox sent).Ok :=
  ⟨h.serves, h.frames, h.greets, h.greeted⟩

theorem Peer.Ok.read {p : Peer} (h : p.Ok) {f : Frame} {rest : List Frame}
    (hx : p.outbox = f :: rest) : (p.exchange rest []).Ok :=
  ⟨h.serves, fun g hg => h.frames g (hx ▸ List.mem_cons_of_mem _ hg), h.greets,
    fun g hg => h.greeted g (hx ▸ List.mem_cons_of_mem _ hg)⟩

theorem reads_none {c : ConnId} {outbox rest : List Frame} (h : Reads c outbox none rest) :
    rest = outbox := by
  cases h
  rfl

@[simp] theorem taken_exchange {α : Type} (V : View α) (p : Peer) (rest : List Frame)
    (sent : List Json) : V.taken (p.exchange rest sent) = V.taken p := rfl

/-- Reading from the server asks it nothing. -/
@[simp] theorem asked_read {α : Type} (V : View α) (p : Peer) (rest : List Frame) :
    V.asked (p.exchange rest []) = V.asked p :=
  V.asked_congr rfl rfl (List.append_nil p.inbox)

/-- The link after a frame has been read. -/
theorem link_read {α : Type} {V : View α} {p : Peer} {rest : List Frame} {b : Backend}
    {pc : ReaderPc} {held : Option Frame} :
    V.link (p.exchange rest []) b pc held = { V.link p b pc held with
      line := rest.filterMap V.note } := by
  simp only [View.link, asked_read, taken_exchange]
  rfl

theorem sentTo_ne {c c' : ConnId} (hc : c' ≠ c) (j : Json) : sentTo c (some (c', j)) = [] := by
  simp [sentTo, hc]

theorem sentTo_if_ne {c c' : ConnId} (hc : c' ≠ c) (ok : Bool) (j : Json) :
    sentTo c (if ok then some (c', j) else none) = [] := by
  cases ok with
  | false => rfl
  | true => exact sentTo_ne hc j

@[simp] theorem sentTo_self (c : ConnId) (j : Json) : sentTo c (some (c, j)) = [j] := by
  simp [sentTo]

/-! ## The aggregator's requests -/

/-- A `tools/list` request is asked as one. -/
theorem askOf_list {req id : Json}
    (hm : req.getObjectItemCaseSensitive (ascii "method") = some (text "tools/list"))
    (hid : idOf req = some id) : askOf req = some ⟨.list, id.reparse⟩ := by
  have hinit : ¬ ascii "tools/list" = ascii "initialize" := by decide
  have hping : ¬ ascii "tools/list" = ascii "ping" := by decide
  simp [askOf, handleRequest, hm, hid, text, Json.string?, hinit, hping]

theorem askOf_hello {req id : Json}
    (hm : req.getObjectItemCaseSensitive (ascii "method") = some (text "initialize"))
    (hid : idOf req = some id) : askOf req = some ⟨.hello, id.reparse⟩ := by
  simp [askOf, handleRequest, hm, hid, text, Json.string?]

/-- A call is answered, whatever it calls. -/
theorem askOf_call {req id : Json}
    (hm : req.getObjectItemCaseSensitive (ascii "method") = some (text "tools/call"))
    (hid : idOf req = some id) : askOf req = some ⟨.other, id.reparse⟩ := by
  have hinit : ¬ ascii "tools/call" = ascii "initialize" := by decide
  have hping : ¬ ascii "tools/call" = ascii "ping" := by decide
  have hlist : ¬ ascii "tools/call" = ascii "tools/list" := by decide
  have hmethod : Json.string? (some (text "tools/call")) = some (ascii "tools/call") := rfl
  simp only [askOf, handleRequest, hm, hid, hmethod, hinit, hping, hlist, if_false, if_true]
  cases Json.string? ((req.getObjectItemCaseSensitive (ascii "params")).bind
    (·.getObjectItemCaseSensitive (ascii "name"))) with
  | none => simp
  | some name => rfl

theorem askOf_note {req : Json} {method : CStr}
    (hm : Json.string? (req.getObjectItemCaseSensitive (ascii "method")) = some method)
    (hid : idOf req = none) : askOf req = none := by
  simp [askOf, handleRequest, hm, hid]

theorem reparse_localId {n : Nat} (hn : n < localIdLimit) :
    (Json.ofNat n).reparse = .num (.fin n) := by
  rw [Json.reparse_ofNat hn, ofNat_localId hn]

theorem askOf_refreshRequest {n : Nat} (hn : n < localIdLimit) :
    askOf (refreshRequest n) = some ⟨.list, .num (.fin n)⟩ := by
  have hrpc : ¬ ascii "jsonrpc" = ascii "method" := by decide
  have hid : ¬ ascii "id" = ascii "method" := by decide
  have hm : (refreshRequest n).getObjectItemCaseSensitive (ascii "method") =
      some (text "tools/list") := by
    simp [refreshRequest, fields, Json.getObjectItem_obj_cons, hrpc, hid]
  rw [askOf_list hm (idOf_refreshRequest n), reparse_localId hn]

theorem askOf_forwardRequest {n : Nat} (hn : n < localIdLimit) (bare : CStr) (args : Option Json) :
    askOf (forwardRequest n bare args).reparse = some ⟨.other, .num (.fin n)⟩ := by
  have hrpc : ¬ ascii "jsonrpc" = ascii "method" := by decide
  have hid : ¬ ascii "id" = ascii "method" := by decide
  have hm : (forwardRequest n bare args).reparse.getObjectItemCaseSensitive (ascii "method") =
      some (text "tools/call") := by
    simp [forwardRequest, fields, Json.getObjectItem_obj_cons, hrpc, hid, text]
  have hi : idOf (forwardRequest n bare args).reparse = some (Json.ofNat n) := by
    rw [idOf_reparse, idOf_forwardRequest, Option.map_some, Json.reparse_ofNat hn]
  rw [askOf_call hm hi, reparse_localId hn]

theorem askOf_request (c : ConnId) (ph : Phase) (k : Nat) :
    (askOf ph.request).toList = asked (.recv c ph k) := by
  have hrpc : ¬ ascii "jsonrpc" = ascii "method" := by decide
  have hid : ¬ ascii "id" = ascii "method" := by decide
  cases ph with
  | hello =>
      have hm : Phase.hello.request.getObjectItemCaseSensitive (ascii "method") =
          some (text "initialize") := by
        simp [Phase.request, fields, Json.getObjectItem_obj_cons, hrpc, hid]
      have hn : 1 < localIdLimit := by decide
      rw [askOf_hello hm (idOf_request .hello)]
      show [Ask.mk .hello (Json.ofNat 1).reparse] = _
      rw [reparse_localId hn]
      rfl
  | list appId =>
      have hm : (Phase.list appId).request.getObjectItemCaseSensitive (ascii "method") =
          some (text "tools/list") := by
        simp [Phase.request, fields, Json.getObjectItem_obj_cons, hrpc, hid]
      have hn : 2 < localIdLimit := by decide
      rw [askOf_list hm (idOf_request (.list appId))]
      show [Ask.mk .list (Json.ofNat 2).reparse] = _
      rw [reparse_localId hn]
      rfl

theorem askOf_initializedNote : askOf initializedNote = none := by
  have hrpc : ¬ ascii "jsonrpc" = ascii "method" := by decide
  have hm : Json.string? (initializedNote.getObjectItemCaseSensitive (ascii "method")) =
      some (ascii "notifications/initialized") := by
    simp [initializedNote, fields, Json.getObjectItem_obj_cons, hrpc, text, Json.string?]
  exact askOf_note hm idOf_initializedNote

/-! ## Steps elsewhere -/

section

variable {α : Type} {V : View α} {c : ConnId} {s s' : Sys} {p : Peer}

/-- Thread `t` comes to nothing that concerns connection `c`. -/
def Off (c : ConnId) (s s' : Sys) (t : Nat) : Prop :=
  (∀ sh pid pc, s'.threads t = .setup sh pid pc → pc.conn ≠ some c) ∧
    ∀ idx pc' b, s'.threads t = .reader idx pc' → s'.g.backends idx = some b → b.conn = c →
      Blank pc' ∧ ∃ pc, s.threads t = .reader idx pc ∧ Blank pc

/-- A blank reader asks nothing and has nothing in hand. -/
theorem blank_reader {pc : ReaderPc} (h : Blank pc) :
    View.asks pc = false ∧ V.inHand pc none = none ∧ ∀ held, Holds pc held ↔ held = none := by
  cases pc with
  | refresh => cases h
  | lookup d msg => cases h
  | apply result => cases h
  | _ => exact ⟨rfl, rfl, fun _ => Iff.rfl⟩

theorem link_blank {b : Backend} {pc pc' : ReaderPc} (h : Blank pc) (h' : Blank pc') :
    V.link p b pc' none = V.link p b pc none := by
  obtain ⟨ha, hh, -⟩ := blank_reader (V := V) h
  obtain ⟨ha', hh', -⟩ := blank_reader (V := V) h'
  simp only [View.link, ha, hh, ha', hh']

theorem holds_blank {pc : ReaderPc} {held : Option Frame} (h : Blank pc) :
    Holds pc held ↔ held = none :=
  (blank_reader (V := toolsView) h).2.2 held

/-- The backend at the other end changes nothing but fields the view does not see. -/
theorem link_cached {b b' : Backend} {pc : ReaderPc} {held : Option Frame}
    (h : V.cached b' = V.cached b) : V.link p b' pc held = V.link p b pc held := by
  simp only [View.link, h]

/-- A step that does not concern connection `c`. -/
theorem Tied.quiet (h : Tied V c ⟨s, p⟩) (hconns : s.conns ≤ s'.conns)
    (hth : ∀ t, s'.threads t = s.threads t ∨ Off c s s' t)
    (hback : ∀ idx b', s'.g.backends idx = some b' → b'.conn = c →
      ∃ b, s.g.backends idx = some b ∧ b.conn = c ∧ V.cached b' = V.cached b)
    (hslots : ∀ idx b', s'.g.backends idx = some b' → b'.conn = c →
      ∀ i fl, s.g.inflight i = some fl → fl.backend = idx → s'.g.inflight i = some fl) :
    Tied V c ⟨s', p⟩ := by
  refine ⟨h.ok, fun hc => h.unmade (Nat.le_trans hconns hc), fun t sh pid pc ht hpc => ?_,
    fun t idx pc b' ht hb' hbc' => ?_⟩
  · rcases hth t with he | hoff
    · exact h.greets t sh pid pc (he ▸ ht) hpc
    · exact absurd hpc (hoff.1 sh pid pc ht)
  · obtain ⟨b, hb, hbc, hcached⟩ := hback idx b' hb' hbc'
    rcases hth t with he | hoff
    · obtain ⟨hinit, held, hholds, hmatch, hco⟩ := h.follows t idx pc b (he ▸ ht) hb hbc
      refine ⟨hinit, held, hholds, hmatch.keep (hslots idx b' hb' hbc'), ?_⟩
      rw [link_cached hcached]
      exact hco
    · obtain ⟨hblank', pc₀, ht₀, hblank⟩ := hoff.2 idx pc b' ht hb' hbc'
      obtain ⟨hinit, held, hholds, hmatch, hco⟩ := h.follows t idx pc₀ b ht₀ hb hbc
      have hnone := (holds_blank hblank).mp hholds
      subst hnone
      refine ⟨hinit, none, (holds_blank hblank').mpr rfl,
        hmatch.keep (hslots idx b' hb' hbc'), ?_⟩
      rw [link_cached hcached, link_blank hblank hblank']
      exact hco

/-- A quiet step that leaves the tables alone. -/
theorem Tied.still (h : Tied V c ⟨s, p⟩) (hconns : s.conns ≤ s'.conns)
    (hth : ∀ t, s'.threads t = s.threads t ∨ Off c s s' t)
    (hback : s'.g.backends = s.g.backends)
    (hslots : ∀ i fl, s.g.inflight i = some fl → s'.g.inflight i = some fl) :
    Tied V c ⟨s', p⟩ :=
  h.quiet hconns hth (fun _ b' hb' hbc => ⟨b', hback ▸ hb', hbc, rfl⟩)
    fun _ _ _ _ i fl hfl _ => hslots i fl hfl

/-- One thread moves, to a point that does not concern `c`. -/
theorem off_setThread {s₀ : Sys} {t : Nat} {th : Thread}
    (hsetup : ∀ sh pid pc, th = .setup sh pid pc → pc.conn ≠ some c)
    (hreader : ∀ idx pc' b, th = .reader idx pc' → s₀.g.backends idx = some b → b.conn = c →
      Blank pc' ∧ ∃ pc, s.threads t = .reader idx pc ∧ Blank pc) (ht : s₀.threads = s.threads)
    (u : Nat) :
    (s₀.setThread t th).threads u = s.threads u ∨ Off c s (s₀.setThread t th) u := by
  by_cases hu : u = t
  · subst hu
    refine Or.inr ⟨fun sh pid pc he => ?_, fun idx pc' b he hb hbc => ?_⟩
    · rw [Sys.setThread_same] at he
      exact hsetup sh pid pc he
    · rw [Sys.setThread_same] at he
      exact hreader idx pc' b he hb hbc
  · rw [Sys.setThread_ne _ _ hu, ht]
    exact Or.inl rfl

/-- The backend of a connection and a setup thread do not share it. -/
theorem backend_not_setup (hw : Wf s) {idx : Fin maxBackends} {b : Backend} {t : Nat} {sh : Bool}
    {pid : ℤ} {pc : SetupPc} (hb : s.g.backends idx = some b) (ht : s.threads t = .setup sh pid pc) :
    pc.conn ≠ some b.conn := by
  intro he
  have hl : connAt s (.inl idx) = some b.conn := by simp [connAt, hb]
  have := hw.connOnce _ _ _ hl (connAt_setup ht he)
  cases this

/-- Two backends do not share a connection. -/
theorem backend_unique (hw : Wf s) {idx idx' : Fin maxBackends} {b b' : Backend}
    (hb : s.g.backends idx = some b) (hb' : s.g.backends idx' = some b') (hc : b'.conn = b.conn) :
    idx' = idx := by
  have hl : connAt s (.inl idx) = some b.conn := by simp [connAt, hb]
  have hr : connAt s (.inl idx') = some b.conn := by simp [connAt, hb', hc]
  exact Sum.inl.inj (hw.connOnce _ _ _ hr hl)

/-- A backend has one reader. -/
theorem reader_unique (hw : Wf s) {idx : Fin maxBackends} {t t' : Nat} {pc pc' : ReaderPc}
    (ht : s.threads t = .reader idx pc) (ht' : s.threads t' = .reader idx pc') : t' = t := by
  refine hw.readerOnce t' t idx ?_ ?_
  · simp only [ht', Thread.readerOf]
  · simp only [ht, Thread.readerOf]

/-- The step of the backend of `c`: its slots are accounted for by the caller. -/
theorem Tied.onBackend (h : Tied V c ⟨s, p⟩) (hw : Wf s) {idx : Fin maxBackends} {b : Backend}
    (hb : s.g.backends idx = some b) (hbc : b.conn = c) {p' : Peer} (hok : p'.Ok)
    (hinit : p.initialized = true → p'.initialized = true)
    (hconns : s'.conns = s.conns)
    (hback : ∀ k b', s'.g.backends k = some b' → b'.conn = c → k = idx)
    (hsetup : ∀ t sh pid pc, s'.threads t = .setup sh pid pc → s.threads t = .setup sh pid pc)
    (hreader : ∀ t pc' b', s'.threads t = .reader idx pc' → s'.g.backends idx = some b' →
      b'.conn = c → ∃ pc, s.threads t = .reader idx pc ∧
        (Follows V s.g p idx b pc → Follows V s'.g p' idx b' pc')) :
    Tied V c ⟨s', p'⟩ := by
  refine ⟨hok, fun hc => ?_, fun t sh pid pc ht hpc => ?_, fun t k pc' b' ht hb' hbc' => ?_⟩
  · have hlt := hw.connLt (.inl idx) c (by simp [connAt, hb, hbc])
    rw [← hconns] at hlt
    exact absurd hc (Nat.not_le.mpr hlt)
  · exact absurd (hbc ▸ hpc) (backend_not_setup hw hb (hsetup t sh pid pc ht))
  · have hk := hback k b' hb' hbc'
    subst hk
    obtain ⟨pc, htp, himp⟩ := hreader t pc' b' ht hb' hbc'
    obtain ⟨hi, hf⟩ := h.follows t k pc b htp hb hbc
    exact ⟨hinit hi, himp hf⟩

/-! ## Steps of the reader -/

variable {idx : Fin maxBackends} {b : Backend} {g' : Global}

theorem pending_sent (held : Option Frame) {req : Json} {a : Ask} (ha : askOf req = some a) :
    pending held (p.exchange p.outbox [req]) = pending held p ++ [a] := by
  simp [pending, Peer.sent_asks, ha]

/-- A request other than `tools/list` goes unnoticed on the link. -/
theorem Follows.call {pc : ReaderPc} {req : Json} {i : Fin maxInflight} {fl : Inflight}
    (h : Follows V s.g p idx b pc) (hl : LocalIds s) (hfree : s.g.inflight i = none)
    (hg : g'.inflight = s.g.inflight.put i fl) (hid : fl.localId = s.g.nextLocalId + 1)
    (hown : fl.backend = idx) (hk : fl.kind = .agent)
    (hask : askOf req = some ⟨.other, .num (.fin fl.localId)⟩) :
    Follows V g' (p.exchange p.outbox [req]) idx b pc := by
  obtain ⟨held, hholds, hmatch, hco⟩ := h
  refine ⟨held, hholds, ?_, ?_⟩
  · rw [pending_sent held hask]
    exact hmatch.ask hl hfree hg hid hown rfl (by simp [hk])
  · refine View.link_same (p := p) rfl rfl ?_ rfl rfl hco
    simp only [View.asked, taken_exchange]
    simp [Peer.exchange, hask, View.lists]

/-- A refresh is asked. -/
theorem Follows.refreshed {req : Json} {i : Fin maxInflight} {fl : Inflight}
    (h : Follows V s.g p idx b .refresh) (hl : LocalIds s) (hfree : s.g.inflight i = none)
    (hg : g'.inflight = s.g.inflight.put i fl) (hid : fl.localId = s.g.nextLocalId + 1)
    (hown : fl.backend = idx) (hk : fl.kind = .toolsRefresh)
    (hask : askOf req = some ⟨.list, .num (.fin fl.localId)⟩) :
    Follows V g' (p.exchange p.outbox [req]) idx b .top := by
  obtain ⟨held, rfl, hmatch, hco⟩ := h
  refine ⟨none, rfl, ?_, ?_⟩
  · rw [pending_sent none hask]
    exact hmatch.ask hl hfree hg hid hown rfl (by simp [hk])
  · have hasked : V.asked (p.exchange p.outbox [req]) = V.asked p + 1 := by
      simp only [View.asked, taken_exchange]
      simp [Peer.exchange, hask, View.lists, Nat.add_assoc]
    have hlink : V.link (p.exchange p.outbox [req]) b .top none =
        { V.link p b .refresh none with
          due := false, asked := (V.link p b .refresh none).asked + 1 } := by
      simp only [View.link, hasked, taken_exchange]
      rfl
    rw [hlink]
    exact hco.ask

/-- An announcement is read. -/
theorem Follows.heard {g : Global} {f : Frame} {rest : List Frame}
    (h : Follows V g p idx b (.read c)) (hx : p.outbox = f :: rest) (hf : f.answers = none) :
    Follows V g (p.exchange rest []) idx b .refresh := by
  obtain ⟨held, rfl, hmatch, hco⟩ := h
  have hnote : V.note f = some .changed := by simp [View.note, hf]
  refine ⟨none, rfl, ?_, ?_⟩
  · have hasks := Peer.read_asks hx
    rw [hf] at hasks
    rw [pending, hasks] at hmatch
    exact hmatch
  · have hlink : V.link (p.exchange rest []) b .refresh none =
        { V.link p b (.read c) none with line := rest.filterMap V.note, due := true } := by
      rw [link_read]
      rfl
    rw [hlink]
    refine hco.hear ?_
    simp [View.link, hx, hnote]

/-- An answer is read. -/
theorem Follows.got {g : Global} {f : Frame} {rest : List Frame} {a : Ask} {d : Dbl}
    (h : Follows V g p idx b (.read c)) (hx : p.outbox = f :: rest) (hf : f.answers = some a)
    (hok : f.Ok) : Follows V g (p.exchange rest []) idx b (.lookup d f.body) := by
  obtain ⟨held, rfl, hmatch, hco⟩ := h
  refine ⟨some f, ⟨f, a, rfl, hf, hok, rfl⟩, ?_, ?_⟩
  · rw [pending, Peer.read_asks hx] at hmatch
    exact hmatch
  · by_cases hk : a.kind = .list
    · have hnote : V.note f = some (.reply (V.ofReply f.body)) := by simp [View.note, hf, hk]
      have hlink : V.link (p.exchange rest []) b (.lookup d f.body) (some f) =
          { V.link p b (.read c) none with
            line := rest.filterMap V.note, held := some (V.ofReply f.body) } := by
        rw [link_read]
        simp [View.link, View.inHand, hnote]
        rfl
      rw [hlink]
      refine hco.get ?_ rfl
      simp [View.link, hx, hnote]
    · have hnote : V.note f = none := by simp [View.note, hf, hk]
      have hlink : V.link (p.exchange rest []) b (.lookup d f.body) (some f) =
          V.link p b (.read c) none := by
        rw [link_read]
        simp [View.link, View.inHand, hnote, hx]
        rfl
      rw [hlink]
      exact hco

/-- An answer is dropped; it is not of a `tools/list`. -/
theorem Follows.dropped {g : Global} {f : Frame} {rest : List Frame} {a : Ask}
    (h : Follows V g p idx b (.read c)) (hx : p.outbox = f :: rest) (hf : f.answers = some a)
    (hk : a.kind ≠ .list) : Follows V g (p.exchange rest []) idx b .top := by
  obtain ⟨held, rfl, hmatch, hco⟩ := h
  have hnote : V.note f = none := by simp [View.note, hf, hk]
  refine ⟨none, rfl, ?_, ?_⟩
  · rw [pending, Peer.read_asks hx, hf] at hmatch
    exact hmatch.tail
  · have hlink : V.link (p.exchange rest []) b .top none = V.link p b (.read c) none := by
      rw [link_read]
      simp [View.link, View.inHand, hnote, hx]
      rfl
    rw [hlink]
    exact hco

/-- An answer carries its request's id. -/
theorem Frame.Ok.id {f : Frame} {a : Ask} (h : f.Ok) (hf : f.answers = some a) :
    idOf f.body = some a.id := by
  simp only [Frame.Ok, hf] at h
  obtain ⟨body, hans, hb⟩ := h
  rw [hb, idOf_reparse, hans.1]

/-- The answer to a `tools/list` carries a result of the server. -/
theorem Frame.Ok.result {f : Frame} {a : Ask} (h : f.Ok) (hf : f.answers = some a)
    (hk : a.kind = .list) : ∃ tools r,
      f.body.getObjectItemCaseSensitive (ascii "result") =
        some (toolsListResult tools (Registry.appId r)).reparse := by
  simp only [Frame.Ok, hf] at h
  obtain ⟨body, hans, hb⟩ := h
  have hlist := hans.2
  rw [hk] at hlist
  obtain ⟨id, tools, r, rfl⟩ := hlist
  refine ⟨tools, r, ?_⟩
  rw [hb]
  exact result_reply id (toolsListResult tools (Registry.appId r))

/-- The reader looks an answer up: it finds the slot of the request. -/
theorem Follows.lookedUp {d : Dbl} {msg : Json} (h : Follows V s.g p idx b (.lookup d msg))
    (hl : LocalIds s) (hid : idOf msg = some (.num d)) :
    Follows V (readerLookup s.g idx d msg).1 p idx b (readerLookup s.g idx d msg).2 := by
  obtain ⟨held, ⟨f, a, rfl, hf, hok, rfl⟩, hmatch, hco⟩ := h
  have hpend : pending (some f) p = a :: p.asks := by simp [pending, hf]
  rw [hpend] at hmatch
  obtain ⟨i, fl, hfl, haid, hown, hk⟩ := hmatch.slots a List.mem_cons_self
  have hd : d = .fin fl.localId := by
    rw [hok.id hf, haid] at hid
    cases hid
    rfl
  have hlt : fl.localId < 2 ^ 64 := by
    have hle := hl.le i fl hfl
    have hlim := hl.limit
    unfold localIdLimit at hlim
    omega
  have hfind : inflightFind s.g (castU64 s.g.platform.castUb d) = some i := by
    rw [hd, castU64_natCast _ hlt]
    exact hl.find_eq hfl
  have hcases := readerLookup_cases s.g idx d f.body
  generalize readerLookup s.g idx d f.body = r at hcases ⊢
  cases hcases with
  | missed hno =>
      rw [hfind] at hno
      cases hno
  | foreign i' fl' hf' hfl' hne =>
      rw [hfind] at hf'
      cases hf'
      rw [hfl] at hfl'
      cases hfl'
      exact absurd hown hne
  | refreshed i' fl' hf' hfl' _ hkind pc hpc =>
      rw [hfind] at hf'
      cases hf'
      rw [hfl] at hfl'
      cases hfl'
      have hlist := hk.mpr hkind
      obtain ⟨tools, reg, hresult⟩ := hok.result hf hlist
      rw [hresult] at hpc
      subst hpc
      refine ⟨none, ⟨rfl, tools, reg, rfl⟩, hmatch.release hfl haid, ?_⟩
      have hlink : V.link p b (.apply (toolsListResult tools reg.appId).reparse) none =
          V.link p b (.lookup d f.body) (some f) := by
        have hnote : V.note f = some (.reply (V.ofReply f.body)) := by simp [View.note, hf, hlist]
        simp only [View.link, View.inHand, Option.bind_some, hnote, Note.value_reply, View.ofReply,
          hresult, Option.getD_some]
        rfl
      exact hlink ▸ hco
  | answered i' fl' hf' hfl' _ hkind =>
      rw [hfind] at hf'
      cases hf'
      rw [hfl] at hfl'
      cases hfl'
      have hlist : a.kind ≠ .list := by
        rw [Ne, hk, hkind]
        simp
      refine ⟨none, rfl, hmatch.release hfl haid, ?_⟩
      have hlink : V.link p b (.relay fl.seq (restoreId f.body fl.origId)) none =
          V.link p b (.lookup d f.body) (some f) := by
        have hnote : V.note f = none := by simp [View.note, hf, hlist]
        simp only [View.link, View.inHand, Option.bind_some, hnote]
        rfl
      exact hlink ▸ hco

/-- The reader applies a result. -/
theorem Follows.applied {g : Global} {b' : Backend} {result : Json}
    (h : Follows V g p idx b (.apply result)) (hi : g'.inflight = g.inflight)
    (hb' : V.cached b' = V.record (V.cached b) (V.ofResult result)) :
    Follows V g' p idx b' .emitCheck := by
  obtain ⟨held, ⟨rfl, -⟩, hmatch, hco⟩ := h
  refine ⟨none, rfl, hmatch.keep fun i fl hfl _ => hi ▸ hfl, ?_⟩
  have hlink : V.link p b' .emitCheck none = { V.link p b (.apply result) none with
      held := none, copy := some (V.record (V.cached b) (V.ofResult result)) } := by
    simp only [View.link, hb']
    rfl
  rw [hlink]
  exact hco.apply rfl rfl

/-! ## Steps of the setup thread -/

/-- The step of the setup thread that holds `c`. -/
theorem Tied.onSetup (h : Tied V c ⟨s, p⟩) (hw : Wf s) {t : Nat} {sh : Bool} {pid : ℤ}
    {pc pc' : SetupPc} {p' : Peer} (ht : s.threads t = .setup sh pid pc) (hpc : pc.conn = some c)
    (hok : p'.Ok) (hg : Greets p pc → pc'.conn = some c → Greets p' pc') :
    Tied V c ⟨s.setThread t (.setup sh pid pc'), p'⟩ := by
  have hown : connAt s (.inr t) = some c := connAt_setup ht hpc
  refine ⟨hok, fun hc => ?_, fun u sh' pid' pc₁ hu hc => ?_, fun u k pc₁ b hu hb hbc => ?_⟩
  · exact absurd hc (Nat.not_le.mpr (hw.connLt _ _ hown))
  · change (s.setThread t _).threads u = _ at hu
    rw [Sys.setThread_apply] at hu
    split at hu
    · cases hu
      exact hg (h.greets t _ _ pc ht hpc) hc
    · next hne =>
        exact absurd (hw.setup_unique hu hc ht hpc) hne
  · exact absurd (hbc ▸ hpc) (backend_not_setup hw hb ht)

/-- The handshake writes a request. -/
theorem Greets.sent {ph : Phase} {k : Nat} (h : Greets p (.send c ph)) :
    Greets (p.exchange p.outbox [ph.request]) (.recv c ph k) := by
  refine ⟨?_, fun hg => h.2 ?_⟩
  · have hsent := askOf_request c ph k
    rw [Peer.sent_asks, h.1, ← hsent]
    cases hask : askOf ph.request <;> simp [asked, hask]
  · cases ph with
    | hello => exact hg
    | list appId => trivial

/-- What the handshake makes of a frame of the server: it skips an announcement, and the answer
    it waits for takes it on. -/
inductive ReadCases (p : Peer) (c : ConnId) (k : Nat) (f : Frame) (rest : List Frame) :
    Phase → SetupPc → Prop where
  | skipped {ph pc} (hf : f.answers = none) (hpc : pc = .recv c ph (k + 1) ∨ pc = .remove false)
      (hasks : (p.exchange rest []).asks = asked (.recv c ph k)) : ReadCases p c k f rest ph pc
  | greeted {a} (hf : f.answers = some a) (hk : a.kind = .hello)
      (hasks : (p.exchange rest []).asks = []) :
      ReadCases p c k f rest .hello (.initialized c (helloAppId f.body))
  | listed {a appId} (hf : f.answers = some a) (hk : a.kind = .list)
      (hasks : (p.exchange rest []).asks = []) :
      ReadCases p c k f rest (.list appId) (.register c (joinAppId appId f.body) f.body)

theorem syncStep_cases {ph : Phase} {k : Nat} {f : Frame} {rest : List Frame}
    (h : Greets p (.recv c ph k)) (hok : p.Ok) (hx : p.outbox = f :: rest) :
    ReadCases p c k f rest ph (syncStep c ph k (.msg f.body)) := by
  have hf := hok.frames f (hx ▸ List.mem_cons_self)
  have hasks := (Peer.read_asks hx).symm.trans h.1
  cases ha : f.answers with
  | none =>
      rw [ha] at hasks
      have hbody : f.body = listChanged.reparse := by
        simpa only [Frame.Ok, ha] using hf
      have hid : idOf f.body = none := by
        rw [hbody]
        decide
      simp only [syncStep, hid, Json.number?]
      rw [if_neg (by simp)]
      refine .skipped ha ?_ hasks
      split
      · exact Or.inl rfl
      · exact Or.inr rfl
  | some a =>
      rw [ha] at hasks
      have hid := hf.id ha
      cases ph with
      | hello =>
          obtain ⟨rfl, hnil⟩ := List.cons.inj hasks
          simp only [syncStep, hid, Json.number?, Phase.wantId, if_true]
          exact .greeted ha rfl hnil
      | list appId =>
          obtain ⟨rfl, hnil⟩ := List.cons.inj hasks
          simp only [syncStep, hid, Json.number?, Phase.wantId, if_true]
          exact .listed ha rfl hnil

/-- The handshake reads a frame. -/
theorem Greets.read {ph : Phase} {k : Nat} {f : Frame} {rest : List Frame}
    (h : Greets p (.recv c ph k)) (hok : p.Ok) (hx : p.outbox = f :: rest)
    (hc : (syncStep c ph k (.msg f.body)).conn = some c) :
    Greets (p.exchange rest []) (syncStep c ph k (.msg f.body)) := by
  have hcases := syncStep_cases h hok hx
  generalize syncStep c ph k (.msg f.body) = pc at hcases hc
  cases hcases with
  | skipped hf hpc hasks =>
      rcases hpc with rfl | rfl
      · refine ⟨hasks.trans ?_, fun hg => h.2 ?_⟩
        · cases ph <;> rfl
        · cases ph with
          | hello => exact hg
          | list appId => trivial
      · cases hc
  | greeted hf hk hasks =>
      refine ⟨hasks, fun _ => hok.greeted f (hx ▸ List.mem_cons_self) ?_⟩
      rw [hf]
      exact congrArg some hk
  | listed hf hk hasks => exact ⟨hasks, fun _ => h.2 trivial⟩

end

end DisplayxrMcp.Pair
