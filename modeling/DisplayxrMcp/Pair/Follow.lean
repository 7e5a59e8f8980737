/-
  What holds between a server and the reader of its connection.

  `Follows`: each request on its way to the server, or answered and not yet
  looked up, has its slot in the in-flight table, and the server, the connection
  and the reader form a coherent link. `Tied` adds the handshake: one request at
  a time, none left at the registration. `Tied.agg` and `Tied.peer` are the step
  lemmas; what the registration and an application do to the copy is left to the
  caller.
-/
import DisplayxrMcp.Pair.View

namespace DisplayxrMcp.Pair

open Lib Cjson Lts Server

/-- The requests have distinct ids, and each has its slot, owned by `idx`. -/
structure Matched (g : Global) (idx : Fin maxBackends) (asks : List Ask) : Prop where
  ids : (asks.map Ask.id).Nodup
  slots : ∀ a ∈ asks, ∃ i fl, g.inflight i = some fl ∧ a.id = .num (.fin fl.localId) ∧
    fl.backend = idx ∧ (a.kind = .list ↔ fl.kind = .toolsRefresh)

theorem Matched.nil (g : Global) (idx : Fin maxBackends) : Matched g idx [] :=
  ⟨List.nodup_nil, fun _ h => by cases h⟩

theorem Matched.keep {g g' : Global} {idx : Fin maxBackends} {asks : List Ask}
    (h : Matched g idx asks)
    (hg : ∀ i fl, g.inflight i = some fl → fl.backend = idx → g'.inflight i = some fl) :
    Matched g' idx asks := by
  refine ⟨h.ids, fun a ha => ?_⟩
  obtain ⟨i, fl, hfl, hid, hown, hk⟩ := h.slots a ha
  exact ⟨i, fl, hg i fl hfl hown, hid, hown, hk⟩

theorem Matched.tail {g : Global} {idx : Fin maxBackends} {a : Ask} {asks : List Ask}
    (h : Matched g idx (a :: asks)) : Matched g idx asks :=
  ⟨(List.nodup_cons.mp h.ids).2, fun b hb => h.slots b (List.mem_cons_of_mem _ hb)⟩

/-- The slot of the oldest request is released. -/
theorem Matched.release {g : Global} {idx : Fin maxBackends} {a : Ask} {asks : List Ask}
    {i : Fin maxInflight} {fl : Inflight} (h : Matched g idx (a :: asks))
    (hfl : g.inflight i = some fl) (hid : a.id = .num (.fin fl.localId)) :
    Matched (inflightRelease g i) idx asks := by
  refine ⟨h.tail.ids, fun b hb => ?_⟩
  obtain ⟨k, flb, hflb, hidb, hown, hk⟩ := h.tail.slots b hb
  have hne : k ≠ i := by
    rintro rfl
    rw [hflb] at hfl
    cases hfl
    refine (List.nodup_cons.mp h.ids).1 ?_
    show a.id ∈ asks.map Ask.id
    rw [hid, ← hidb]
    exact List.mem_map_of_mem hb
  refine ⟨k, flb, ?_, hidb, hown, hk⟩
  rw [inflightRelease_inflight, Slots.clear_apply, if_neg hne]
  exact hflb

/-- A new request takes a free slot and the next local id. -/
theorem Matched.ask {s : Sys} {idx : Fin maxBackends} {asks : List Ask} {g' : Global} {a : Ask}
    {i : Fin maxInflight} {fl : Inflight} (h : Matched s.g idx asks) (hl : LocalIds s)
    (hfree : s.g.inflight i = none) (hg : g'.inflight = s.g.inflight.put i fl)
    (hfl : fl.localId = s.g.nextLocalId + 1) (hown : fl.backend = idx)
    (hid : a.id = .num (.fin fl.localId)) (hk : a.kind = .list ↔ fl.kind = .toolsRefresh) :
    Matched g' idx (asks ++ [a]) := by
  have hkeep : ∀ k fk, s.g.inflight k = some fk → g'.inflight k = some fk := by
    intro k fk hfk
    have hne : k ≠ i := by
      rintro rfl
      rw [hfree] at hfk
      cases hfk
    rw [hg, Slots.put_ne _ _ hne]
    exact hfk
  refine ⟨?_, fun b hb => ?_⟩
  · rw [List.map_append, List.nodup_append]
    refine ⟨h.ids, List.nodup_singleton _, fun x hx y hy => ?_⟩
    obtain ⟨b, hb, rfl⟩ := List.mem_map.mp hx
    obtain ⟨k, fk, hfk, hidk, -, -⟩ := h.slots b hb
    have hle := hl.le k fk hfk
    rw [List.mem_singleton.mp hy, hid, hidk]
    intro he
    injection he with he
    injection he with he
    have hnat : fk.localId = fl.localId := by exact_mod_cast he
    omega
  · rcases List.mem_append.mp hb with hb | hb
    · obtain ⟨k, fk, hfk, hidk, hownk, hkk⟩ := h.slots b hb
      exact ⟨k, fk, hkeep k fk hfk, hidk, hownk, hkk⟩
    · rw [List.mem_singleton.mp hb]
      exact ⟨i, fl, by rw [hg, Slots.put_same], hid, hown, hk⟩

/-- What the reader at `pc` has of the server: an answer it is about to look up, or the result
    it is about to apply. -/
def Holds : ReaderPc → Option Frame → Prop
  | .lookup _ msg, held => ∃ f a, held = some f ∧ f.answers = some a ∧ f.Ok ∧ f.body = msg
  | .apply result, held => held = none ∧
      ∃ tools r, result = (toolsListResult tools (Registry.appId r)).reparse
  | _, held => held = none

/-- A reader that is neither asking nor has anything of the server in hand. -/
def Blank : ReaderPc → Prop
  | .refresh | .lookup _ _ | .apply _ => False
  | _ => True

/-- The requests not yet looked up. -/
def pending (held : Option Frame) (p : Peer) : List Ask :=
  (held.bind Frame.answers).toList ++ p.asks

/-- The reader of backend `idx` keeps up with the server. -/
def Follows {α : Type} (V : View α) (g : Global) (p : Peer) (idx : Fin maxBackends) (b : Backend)
    (pc : ReaderPc) : Prop :=
  ∃ held, Holds pc held ∧ Matched g idx (pending held p) ∧
    (V.link p b pc held).Coherent V.toRecording

/-- The request a handshake waits for. -/
def asked : SetupPc → List Ask
  | .recv _ .hello _ => [⟨.hello, .num (.fin (1 : Nat))⟩]
  | .recv _ (.list _) _ => [⟨.list, .num (.fin (2 : Nat))⟩]
  | _ => []

/-- The reply to `initialize` has been read. -/
def isGreeted : SetupPc → Prop
  | .send _ .hello | .recv _ .hello _ => False
  | _ => True

/-- The handshake at `pc` keeps up with the server. -/
def Greets (p : Peer) (pc : SetupPc) : Prop :=
  p.asks = asked pc ∧ (isGreeted pc → p.initialized = true)

structure Tied {α : Type} (V : View α) (c : ConnId) (j : Joint) : Prop where
  ok : j.peer.Ok
  unmade : j.sys.conns ≤ c → j.peer.asks = []
  greets : ∀ t sh pid pc, j.sys.threads t = .setup sh pid pc → pc.conn = some c → Greets j.peer pc
  follows : ∀ t idx pc b, j.sys.threads t = .reader idx pc → j.sys.g.backends idx = some b →
    b.conn = c → j.peer.initialized = true ∧ Follows V j.sys.g j.peer idx b pc

section

variable {α : Type} {V : View α} {c : ConnId} {j : Joint}

/-- The server moves. -/
theorem Tied.peer (h : Tied V c j) {a : PeerAct} {p' : Peer} (hst : j.peer.Step a p') :
    Tied V c ⟨j.sys, p'⟩ := by
  have hasks := hst.asks h.ok
  refine ⟨hst.ok h.ok, fun hc => hasks.trans (h.unmade hc), fun t sh pid pc ht hpc => ?_,
    fun t idx pc b ht hb hbc => ?_⟩
  · obtain ⟨hask, hinit⟩ := h.greets t sh pid pc ht hpc
    exact ⟨hasks.trans hask, fun hg => hst.initialized (hinit hg)⟩
  · obtain ⟨hinit, held, hholds, hmatch, hco⟩ := h.follows t idx pc b ht hb hbc
    refine ⟨hst.initialized hinit, held, hholds, ?_, View.link_peer hst h.ok hinit hco⟩
    rw [pending, hasks]
    exact hmatch

theorem tied_start {printText : Json → CStr} {r : Registry} {platform : Platform} {expose : Bool} :
    Tied V c ⟨Sys.start platform expose, Peer.start printText r⟩ := by
  refine ⟨Peer.start_ok printText r, fun _ => rfl, ?_, ?_⟩
  · intro t sh pid pc ht; cases ht
  · intro t idx pc b ht; cases ht

end

end DisplayxrMcp.Pair
