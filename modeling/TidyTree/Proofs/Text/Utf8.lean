import Mathlib.Tactic.SplitIfs
import TidyTree.Text.Utf8

set_option autoImplicit false
set_option relaxedAutoImplicit false

namespace TidyTree.Text

private theorem utf8_cons (c : Char) (cs : List Char) :
    utf8 (c :: cs) = String.utf8EncodeChar c ++ utf8 cs :=
  List.flatMap_cons

private theorem utf8EncodeChar_of_ascii {c : Char} (h : c.toNat < 128) :
    String.utf8EncodeChar c = [c.toNat.toUInt8] := by
  have small : c.val.toNat ≤ 127 := Nat.le_of_lt_succ h
  simp only [String.utf8EncodeChar, small, if_true]
  rfl

/-- The bytes of a text in ASCII are its characters. -/
theorem map_ofUInt8_utf8 {cs : List Char} (ascii : ∀ c ∈ cs, c.toNat < 128) :
    (utf8 cs).map Char.ofUInt8 = cs ∧ ∀ b ∈ utf8 cs, b < 128 := by
  induction cs with
  | nil => exact ⟨rfl, List.forall_mem_nil _⟩
  | cons c cs ih =>
    obtain ⟨first, rest⟩ := List.forall_mem_cons.mp ascii
    obtain ⟨same, small⟩ := ih rest
    have value : c.toNat.toUInt8.toNat = c.toNat :=
      UInt8.toNat_ofNat_of_lt' (Nat.lt_trans first (by decide))
    rw [utf8_cons, utf8EncodeChar_of_ascii first, List.singleton_append, List.map_cons, same,
      List.forall_mem_cons]
    refine ⟨?_, ?_, small⟩
    · rw [List.cons.injEq, ← Char.toNat_inj]
      exact ⟨value, rfl⟩
    · rw [UInt8.lt_iff_toNat_lt, value]
      exact first

theorem exists_mem_utf8 {cs : List Char} {c : Char} (hc : c ∈ cs) (h : 128 ≤ c.toNat) :
    ∃ b ∈ utf8 cs, 128 ≤ b := by
  have lead : ∃ b ∈ String.utf8EncodeChar c, 128 ≤ b := by
    have large : ¬ c.val.toNat ≤ 127 := Nat.not_le.mpr h
    have high (n : Nat) (low : 128 ≤ n) (small : n < 256) : 128 ≤ UInt8.ofNat n := by
      rw [UInt8.le_iff_toNat_le, UInt8.toNat_ofNat_of_lt' small]
      exact low
    simp only [String.utf8EncodeChar, large, if_false]
    split_ifs
    · exact ⟨_, List.mem_cons_self, high _ (by omega) (by omega)⟩
    · exact ⟨_, List.mem_cons_self, high _ (by omega) (by omega)⟩
    · exact ⟨_, List.mem_cons_self, high _ (by omega) (by omega)⟩
  obtain ⟨b, hb, high⟩ := lead
  exact ⟨b, List.mem_flatMap.mpr ⟨c, hc, hb⟩, high⟩

private theorem isBoundary_of_ascii {bytes : List UInt8} (ascii : ∀ b ∈ bytes, b < 128)
    {position : Nat}
    (h : position ≤ bytes.length) : isBoundary bytes position = true := by
  rw [isBoundary, Bool.or_eq_true]
  right
  split
  · next out =>
    rw [List.getElem?_eq_none_iff] at out
    exact beq_iff_eq.mpr (Nat.le_antisymm h out)
  · next b inside =>
    rw [Bool.or_eq_true]
    exact .inl (decide_eq_true (ascii b (List.mem_of_getElem? inside)))

theorem slice?_of_ascii {bytes : List UInt8} (ascii : ∀ b ∈ bytes, b < 128) {position size : Nat}
    (h : position + size ≤ bytes.length) :
    slice? bytes position size = some ((bytes.drop position).take size) := by
  rw [slice?, isBoundary_of_ascii ascii (Nat.le_of_add_right_le h), isBoundary_of_ascii ascii h]
  rfl

end TidyTree.Text
