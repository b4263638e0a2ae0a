import SourceAudit.Files.Reading

/-!
# Texts that are read as they were written

## ASCII texts

A character below 128 is a single byte, and decoding this byte gives the character back.  A text
without carriage returns keeps its line breaks.  So an ASCII text without carriage returns is read
from its bytes as it is.
-/

namespace SourceAudit
namespace Text

theorem utf8Lead?_of_lt {n : Nat} (h : n < 128) :
    utf8Lead? n.toUInt8 = some ⟨0, 0x80, 0xBF, n⟩ := by
  have htoNat : n.toUInt8.toNat = n := by
    rw [Nat.toUInt8, UInt8.toNat_ofNat']
    omega
  have hlt : n.toUInt8 < 0x80 := by
    rw [UInt8.lt_iff_toNat_lt, htoNat]
    exact h
  rw [utf8Lead?, if_pos hlt, htoNat]

theorem Utf8State.step_ascii {s : Utf8State} (hs : s.begun = none) {c : Char}
    (hc : c.toNat < 128) :
    s.step c.toNat.toUInt8 = .ok ⟨c :: s.decoded, s.pos + 1, none⟩ := by
  unfold Utf8State.step
  rw [hs]
  dsimp only
  rw [utf8Lead?_of_lt hc]
  dsimp only
  rw [if_pos rfl, Char.ofNat_toNat]

theorem decodeUtf8From_ascii {s : Utf8State} (hs : s.begun = none) {t : Text}
    (ht : ∀ c ∈ t, c.toNat < 128) :
    decodeUtf8From s (t.map fun c => c.toNat.toUInt8) = .ok (s.decoded.reverse ++ t) := by
  induction t generalizing s with
  | nil =>
      rw [List.map_nil, decodeUtf8From, hs, List.append_nil]
  | cons c rest ih =>
      rcases List.forall_mem_cons.mp ht with ⟨hc, hrest⟩
      rw [List.map_cons, decodeUtf8From, Utf8State.step_ascii hs hc]
      dsimp only
      rw [ih rfl hrest, List.reverse_cons, List.append_assoc]
      rfl

theorem unifyBreaksOnto_of_not_mem {t : Text} (h : '\r' ∉ t) (done : Text) :
    unifyBreaksOnto done t = done.reverse ++ t := by
  induction t generalizing done with
  | nil =>
      rw [unifyBreaksOnto, List.append_nil]
  | cons c rest ih =>
      rw [List.mem_cons, not_or] at h
      rw [unifyBreaksOnto.eq_def]
      split
      · rename_i heq
        cases heq
      · rename_i heq
        cases heq
        exact absurd rfl h.1
      · rename_i heq
        cases heq
        exact absurd rfl h.1
      · rename_i heq
        cases heq
        rw [ih h.2, List.reverse_cons, List.append_assoc]
        rfl

end Text

/-- The bytes of an ASCII text without carriage returns are read as the text. -/
theorem textOfBytes_ascii {t : Text} (h : ∀ c ∈ t, c.toNat < 128) (hbreaks : '\r' ∉ t) :
    textOfBytes (t.map fun c => c.toNat.toUInt8) = .ok t := by
  have hdecode : Text.decodeUtf8 (t.map fun c => c.toNat.toUInt8) = .ok t :=
    Text.decodeUtf8From_ascii rfl h
  unfold textOfBytes
  rw [hdecode]
  exact congrArg Except.ok (Text.unifyBreaksOnto_of_not_mem hbreaks [])

end SourceAudit
