import Mustache.Sink

/-!
# `Mustache.Proofs.Feeding` — what a device holds after some writes

Below its layers a sink writes to a device, one text after the other until the device refuses one. `Device.feed` is
this loop on its own, without the layers that wait for its outcome.

* `Sink.drain_of_taken`, `Sink.drain_of_refused` — writing chunks is feeding their texts;
* `Device.acceptAll_eq` — what a device holds that has taken all of some texts;
* `Device.feed_endless`, `Device.feed_limited`, `Device.feed_limited_lt` — a device that takes everything, one that
  takes enough, and one that does not: this one holds exactly the texts that it takes, and refuses once.
-/

namespace Mustache

/-! ## Packets -/

namespace Packet

/-- The bytes of a packet. Characters are encoded as UTF-8. -/
def encoded : Packet → Bytes
  | .characters s => Text.utf8 s
  | .bytes bs => bs

theorem text_pack (m : Medium) (s : Text) : (m.pack s).text = s := by
  cases m with
  | characters => rfl
  | bytes => simp [Medium.pack, text, Encoding.decode?_utf8]

theorem encoded_pack (m : Medium) (s : Text) : (m.pack s).encoded = Text.utf8 s := by
  cases m <;> rfl

theorem size_pack_append (m : Medium) (s t : Text) : (m.pack (s ++ t)).size = (m.pack s).size + (m.pack t).size := by
  cases m <;> simp [Medium.pack, size, Text.utf8]

end Packet

/-! ## Devices -/

namespace Device

variable {d d' : Device} {s : Text} {ws vs : List Text} {f : Fault} {k : Nat}

/-- All bytes that have been written, characters encoded as UTF-8. -/
def encoded (d : Device) : Bytes := d.packets.reverse.flatMap Packet.encoded

/-- After all of some texts have been written. -/
def acceptAll (d : Device) (ws : List Text) : Device := ws.foldl accept d

/-- Texts written to a device one after the other, as far as it takes them, and why it refuses one of them. -/
def feed (d : Device) : List Text → Device × Option Fault
  | [] => (d, none)
  | w :: ws =>
      match d.refusal w with
      | some fault => (d.refuse, some fault)
      | none => feed (d.accept w) ws

theorem feed_cons_of_refusal (h : d.refusal s = some f) (ws : List Text) : d.feed (s :: ws) = (d.refuse, some f) := by
  rw [feed, h]

theorem feed_cons_of_accept (h : d.refusal s = none) (ws : List Text) : d.feed (s :: ws) = (d.accept s).feed ws := by
  rw [feed, h]

/-! ### Single writes -/

theorem accept_nil (d : Device) : d.accept [] = d := rfl

theorem accept_of_ne_nil (d : Device) (hs : s ≠ []) :
    d.accept s = { d with packets := d.medium.pack s :: d.packets, written := d.written + (d.medium.pack s).size } := by
  cases s with
  | nil => exact absurd rfl hs
  | cons => rfl

theorem endurance_accept (d : Device) (s : Text) : (d.accept s).endurance = d.endurance := by
  cases s <;> rfl

theorem writes_accept (d : Device) (hs : s ≠ []) : (d.accept s).writes = d.writes + 1 := by
  rw [accept_of_ne_nil d hs]
  rfl

/-- A device is never asked to write nothing, if it can write at all. -/
theorem refusal_nil (hd : d.endurance ≠ .unwritable) : d.refusal [] = none := by
  unfold refusal
  cases h : d.endurance with
  | endless => rfl
  | limited k => simp
  | unwritable => exact absurd h hd

theorem text_accept (d : Device) (s : Text) : (d.accept s).text = d.text ++ s := by
  cases s with
  | nil => simp [accept_nil]
  | cons c s => simp [accept, text, Packet.text_pack]

theorem encoded_accept (d : Device) (s : Text) : (d.accept s).encoded = d.encoded ++ Text.utf8 s := by
  cases s with
  | nil => simp [accept_nil, Text.utf8]
  | cons c s => simp [accept, encoded, Packet.encoded_pack]

/-! ### Series of writes -/

theorem feed_append_of_taken (h : d.feed ws = (d', none)) (vs : List Text) : d.feed (ws ++ vs) = d'.feed vs := by
  induction ws generalizing d with
  | nil =>
      cases h
      rfl
  | cons w ws ih =>
      cases hw : d.refusal w with
      | some f =>
          rw [feed_cons_of_refusal hw] at h
          cases h
      | none =>
          rw [feed_cons_of_accept hw] at h
          rw [List.cons_append, feed_cons_of_accept hw]
          exact ih h

theorem feed_append_of_refused (h : d.feed ws = (d', some f)) (vs : List Text) :
    d.feed (ws ++ vs) = (d', some f) := by
  induction ws generalizing d with
  | nil => cases h
  | cons w ws ih =>
      cases hw : d.refusal w with
      | some f' =>
          rw [feed_cons_of_refusal hw] at h
          rw [List.cons_append, feed_cons_of_refusal hw, h]
      | none =>
          rw [feed_cons_of_accept hw] at h
          rw [List.cons_append, feed_cons_of_accept hw]
          exact ih h

theorem endurance_acceptAll (d : Device) (ws : List Text) : (d.acceptAll ws).endurance = d.endurance := by
  induction ws generalizing d with
  | nil => rfl
  | cons w ws ih => exact (ih (d.accept w)).trans (endurance_accept d w)

theorem endurance_feed (d : Device) (ws : List Text) : (d.feed ws).1.endurance = d.endurance := by
  induction ws generalizing d with
  | nil => rfl
  | cons w ws ih =>
      cases hw : d.refusal w with
      | some f =>
          rw [feed_cons_of_refusal hw]
          rfl
      | none =>
          rw [feed_cons_of_accept hw, ih, endurance_accept]

theorem text_acceptAll (d : Device) (ws : List Text) : (d.acceptAll ws).text = d.text ++ ws.flatten := by
  induction ws generalizing d with
  | nil => simp [acceptAll]
  | cons w ws ih =>
      have hrest : (d.acceptAll (w :: ws)).text = (d.accept w).text ++ ws.flatten := ih (d.accept w)
      rw [hrest, text_accept, List.flatten_cons, List.append_assoc]

theorem encoded_acceptAll (d : Device) (ws : List Text) :
    (d.acceptAll ws).encoded = d.encoded ++ Text.utf8 ws.flatten := by
  induction ws generalizing d with
  | nil => simp [acceptAll, Text.utf8]
  | cons w ws ih =>
      have hrest : (d.acceptAll (w :: ws)).encoded = (d.accept w).encoded ++ Text.utf8 ws.flatten := ih (d.accept w)
      rw [hrest, encoded_accept, List.flatten_cons, List.append_assoc, Text.utf8, Text.utf8, Text.utf8,
        List.flatMap_append]

/-- **What a device holds that has taken some texts**, each as one packet. -/
theorem acceptAll_eq (d : Device) (hws : ∀ w ∈ ws, w ≠ []) :
    d.acceptAll ws = { d with
      packets := (ws.map d.medium.pack).reverse ++ d.packets
      written := d.written + (d.medium.pack ws.flatten).size } := by
  induction ws generalizing d with
  | nil =>
      obtain ⟨medium, endurance, packets, written, refusals⟩ := d
      cases medium <;> rfl
  | cons w ws ih =>
      obtain ⟨hw, hws⟩ := List.forall_mem_cons.mp hws
      have hrest : d.acceptAll (w :: ws) = (d.accept w).acceptAll ws := rfl
      rw [hrest, ih _ hws, accept_of_ne_nil d hw]
      simp [Packet.size_pack_append, Nat.add_assoc]

/-- A new device, after it has taken some texts. -/
theorem acceptAll_new (m : Medium) (e : Endurance) (hws : ∀ w ∈ ws, w ≠ []) :
    (new m e).acceptAll ws = ⟨m, e, (ws.map m.pack).reverse, (m.pack ws.flatten).size, 0⟩ := by
  rw [acceptAll_eq _ hws]
  simp [new]

/-- A device that takes everything takes all of some texts. -/
theorem feed_endless (hd : d.endurance = .endless) (ws : List Text) : d.feed ws = (d.acceptAll ws, none) := by
  induction ws generalizing d with
  | nil => rfl
  | cons w ws ih =>
      have hw : d.refusal w = none := by rw [refusal, hd]
      rw [feed_cons_of_accept hw, ih ((endurance_accept d w).trans hd)]
      rfl

/-- A device that takes enough takes all of some texts. -/
theorem feed_limited (hd : d.endurance = .limited k) (hws : ∀ w ∈ ws, w ≠ []) (hk : d.writes + ws.length ≤ k) :
    d.feed ws = (d.acceptAll ws, none) := by
  induction ws generalizing d with
  | nil => rfl
  | cons w ws ih =>
      obtain ⟨hne, hws⟩ := List.forall_mem_cons.mp hws
      rw [List.length_cons] at hk
      have hlt : d.writes < k := by omega
      have hw : d.refusal w = none := by
        rw [refusal, hd]
        simp [hlt]
      have hrest := writes_accept d hne
      rw [feed_cons_of_accept hw, ih ((endurance_accept d w).trans hd) hws (by omega)]
      rfl

/-- **A device that does not take enough** takes the first texts, as many as it can, and refuses the next one. -/
theorem feed_limited_lt (hd : d.endurance = .limited k) (hws : ∀ w ∈ ws, w ≠ []) (hle : d.writes ≤ k)
    (hk : k < d.writes + ws.length) :
    d.feed ws = ((d.acceptAll (ws.take (k - d.writes))).refuse, some .streamFailed) := by
  induction ws generalizing d with
  | nil =>
      rw [List.length_nil] at hk
      omega
  | cons w ws ih =>
      obtain ⟨hne, hws⟩ := List.forall_mem_cons.mp hws
      rw [List.length_cons] at hk
      by_cases hlt : d.writes < k
      · have hw : d.refusal w = none := by
          rw [refusal, hd]
          simp [hlt]
        have hwrites := writes_accept d hne
        have htake : k - d.writes = k - (d.accept w).writes + 1 := by omega
        rw [feed_cons_of_accept hw, ih ((endurance_accept d w).trans hd) hws (by omega) (by omega), htake]
        rfl
      · have hw : d.refusal w = some .streamFailed := by
          rw [refusal, hd]
          simp [hlt, hne]
        have hzero : k - d.writes = 0 := by omega
        rw [feed_cons_of_refusal hw, hzero]
        rfl

end Device

/-! ## Sinks -/

namespace Sink

variable {d d' : Device} {layers : List Layer} {chunks : List (Chunk × List Layer)} {f : Fault}

/-- The texts of some chunks, of which the empty ones are not written. -/
def texts (chunks : List (Chunk × List Layer)) : List Text :=
  (chunks.map fun c => c.1.text).filter fun w => !w.isEmpty

theorem texts_ne_nil : ∀ w ∈ texts chunks, w ≠ [] := by
  intro w hw
  simpa using (List.mem_filter.mp hw).2

theorem texts_cons_of_nil {c : Chunk} (hc : c.text = []) (ls : List Layer) : texts ((c, ls) :: chunks) = texts chunks := by
  simp [texts, hc]

theorem texts_cons_of_ne_nil {c : Chunk} (hc : c.text ≠ []) (ls : List Layer) :
    texts ((c, ls) :: chunks) = c.text :: texts chunks := by
  simp [texts, hc]

/-- Chunks are written if the device takes their texts. -/
theorem drain_of_taken (hd : d.endurance ≠ .unwritable) (h : d.feed (texts chunks) = (d', none)) :
    drain d layers chunks = (⟨layers, d'⟩, none) := by
  induction chunks generalizing d with
  | nil =>
      cases h
      rfl
  | cons chunk chunks ih =>
      obtain ⟨c, ls⟩ := chunk
      unfold drain
      by_cases hc : c.text = []
      · rw [texts_cons_of_nil hc] at h
        rw [hc, Device.refusal_nil hd]
        exact ih hd h
      · rw [texts_cons_of_ne_nil hc] at h
        cases hw : d.refusal c.text with
        | some f =>
            rw [Device.feed_cons_of_refusal hw] at h
            cases h
        | none =>
            rw [Device.feed_cons_of_accept hw] at h
            exact ih (by rwa [Device.endurance_accept]) h

/-- Chunks are written as far as the device takes their texts. -/
theorem drain_of_refused (hd : d.endurance ≠ .unwritable) (h : d.feed (texts chunks) = (d', some f)) :
    ∃ ls, drain d layers chunks = (⟨ls, d'⟩, some f) := by
  induction chunks generalizing d with
  | nil => cases h
  | cons chunk chunks ih =>
      obtain ⟨c, ls⟩ := chunk
      unfold drain
      by_cases hc : c.text = []
      · rw [texts_cons_of_nil hc] at h
        rw [hc, Device.refusal_nil hd]
        exact ih hd h
      · rw [texts_cons_of_ne_nil hc] at h
        cases hw : d.refusal c.text with
        | some f =>
            rw [Device.feed_cons_of_refusal hw] at h
            cases h
            exact ⟨ls, rfl⟩
        | none =>
            rw [Device.feed_cons_of_accept hw] at h
            exact ih (by rwa [Device.endurance_accept]) h

end Sink

end Mustache
