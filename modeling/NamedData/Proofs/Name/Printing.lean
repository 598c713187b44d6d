import Mathlib.Data.List.Basic
import NamedData.Name

/-!
# Reading printed names

A printed name is read back component by component. A component of visible characters alone is
printed as it is and read back. Any other one is printed in hexadecimal, and its digits are read as
the characters that they are. So the printed form of a name that was read from a text stands for the
same name if and only if all characters of the text are visible.
-/

namespace NamedData

namespace Text

variable {mark c : Char} {cs : List Char}

theorem pieces_cons (h : c ≠ mark) (cs : List Char) :
    pieces mark (c :: cs) = (pieces mark cs).modifyHead (c :: ·) := by
  rw [pieces, if_neg h]
  cases hpieces : pieces mark cs with
  | nil => exact absurd hpieces (pieces_ne_nil mark cs)
  | cons piece rest => rfl

theorem flatten_pieces (mark : Char) (cs : List Char) :
    (pieces mark cs).flatten = cs.filter (· ≠ mark) := by
  induction cs with
  | nil => rfl
  | cons c cs ih =>
    by_cases h : c = mark
    · rw [pieces, if_pos h, List.flatten_cons, ih]
      simp [h]
    · rw [pieces_cons h]
      cases hpieces : pieces mark cs with
      | nil => exact absurd hpieces (pieces_ne_nil mark cs)
      | cons piece rest =>
        rw [hpieces, List.flatten_cons] at ih
        simp [h, ih]

theorem pieces_append {piece : List Char} (h : mark ∉ piece) (cs : List Char) :
    pieces mark (piece ++ cs) = (pieces mark cs).modifyHead (piece ++ ·) := by
  induction piece with
  | nil => cases hpieces : pieces mark cs <;> simp [hpieces]
  | cons c piece ih =>
    obtain ⟨hc, hpiece⟩ := List.ne_and_not_mem_of_not_mem_cons h
    rw [List.cons_append, pieces_cons hc.symm, ih hpiece, List.modifyHead_modifyHead]
    rfl

theorem pieces_flatMap {ps : List (List Char)} (h : ∀ p ∈ ps, mark ∉ p) :
    pieces mark (ps.flatMap (mark :: ·)) = [] :: ps := by
  induction ps with
  | nil => rfl
  | cons p ps ih =>
    obtain ⟨hp, hps⟩ := List.forall_mem_cons.1 h
    rw [List.flatMap_cons, List.cons_append, pieces, if_pos rfl, pieces_append hp, ih hps,
      List.modifyHead_cons, List.append_nil]

/-- A character of printable ASCII, blanks excluded. -/
def Visible (c : Char) : Prop := 0x21 ≤ c.toNat ∧ c.toNat ≤ 0x7e

instance : DecidablePred Visible := fun _ => inferInstanceAs (Decidable (_ ∧ _))

end Text

namespace Name

open Text

variable {n : Name} {component : Octets} {c : Char} {cs piece : List Char}

theorem encode_ascii (h : c.toNat ≤ 0x7f) : String.utf8EncodeChar c = [UInt8.ofNat c.toNat] :=
  if_pos h

theorem exists_octet_of_not_ascii (h : 0x7f < c.toNat) :
    ∃ b ∈ String.utf8EncodeChar c, 0x7f < b.toNat := by
  have hhigh : ¬c.val.toNat ≤ 0x7f := Nat.not_le.2 h
  unfold String.utf8EncodeChar
  dsimp only
  rw [if_neg hhigh]
  split
  · refine ⟨_, List.mem_cons_self, ?_⟩
    rw [UInt8.toNat_ofNat']
    omega
  · split
    all_goals
      refine ⟨_, List.mem_cons_self, ?_⟩
      rw [UInt8.toNat_ofNat']
      omega

theorem printable_iff :
    printable component ↔ ∀ b ∈ component, (0x21 ≤ b.toNat ∧ b.toNat ≤ 0x7e) ∧ b ≠ 0x2f := by
  simp [printable, graphic, UInt8.le_iff_toNat_le]

theorem printable_encode :
    printable (piece.flatMap String.utf8EncodeChar) ↔ ∀ c ∈ piece, Visible c ∧ c ≠ '/' := by
  have hslash : ∀ {c : Char}, c.toNat ≤ 0x7f → (UInt8.ofNat c.toNat = 0x2f ↔ c = '/') := by
    intro c hc
    rw [← UInt8.toNat_inj, UInt8.toNat_ofNat', Nat.mod_eq_of_lt (by omega), ← Char.toNat_inj]
    rfl
  rw [printable_iff]
  constructor
  · intro h c hc
    have hascii : c.toNat ≤ 0x7f := by
      by_contra hhigh
      obtain ⟨b, hb, hlt⟩ := exists_octet_of_not_ascii (Nat.lt_of_not_le hhigh)
      have := (h b (List.mem_flatMap.2 ⟨c, hc, hb⟩)).1.2
      omega
    obtain ⟨hvisible, hne⟩ := h (UInt8.ofNat c.toNat) <|
      List.mem_flatMap.2 ⟨c, hc, by rw [encode_ascii hascii]; exact List.mem_cons_self⟩
    rw [UInt8.toNat_ofNat', Nat.mod_eq_of_lt (by omega)] at hvisible
    exact ⟨hvisible, mt (hslash hascii).2 hne⟩
  · intro h b hb
    obtain ⟨c, hc, hbc⟩ := List.mem_flatMap.1 hb
    obtain ⟨⟨hlow, hhigh⟩, hne⟩ := h c hc
    rw [encode_ascii (by omega), List.mem_singleton] at hbc
    rw [hbc, UInt8.toNat_ofNat', Nat.mod_eq_of_lt (by omega)]
    exact ⟨⟨hlow, hhigh⟩, mt (hslash (by omega)).1 hne⟩

def shown (component : Octets) : Octets := (componentText component).flatMap String.utf8EncodeChar

theorem char_ofNat_toNat {b : UInt8} : (Char.ofNat b.toNat).toNat = b.toNat := by
  have hvalid : b.toNat.isValidChar := .inl (by have := b.toNat_lt; omega)
  rw [Char.ofNat, dif_pos hvalid]
  rfl

theorem shown_of_printable (h : printable component) : shown component = component := by
  rw [shown, componentText, if_pos h, List.flatMap_map]
  have hone : ∀ b ∈ component, String.utf8EncodeChar (Char.ofNat b.toNat) = [b] := by
    intro b hb
    obtain ⟨⟨-, hhigh⟩, -⟩ := printable_iff.1 h b hb
    rw [encode_ascii (by rw [char_ofNat_toNat]; omega), char_ofNat_toNat, UInt8.ofNat_toNat]
  rw [List.flatMap_congr hone, List.flatMap_singleton']

theorem length_hexDigits (bytes : Octets) :
    (Octets.hexDigits bytes).length = 2 * bytes.length := by
  induction bytes with
  | nil => rfl
  | cons b bytes ih =>
    rw [Octets.hexDigits, List.flatMap_cons, ← Octets.hexDigits, List.length_append, ih]
    simp only [List.length_cons, List.length_nil]
    omega

theorem length_le_length_encode (cs : List Char) :
    cs.length ≤ (cs.flatMap String.utf8EncodeChar).length := by
  induction cs with
  | nil => simp
  | cons c cs ih =>
    have hpos := c.utf8Size_pos
    rw [List.flatMap_cons, List.length_append, String.length_utf8EncodeChar, List.length_cons]
    omega

/-- What is printed in hexadecimal is longer than the component. -/
theorem shown_eq_self_iff : shown component = component ↔ printable component := by
  refine ⟨fun hsame => ?_, shown_of_printable⟩
  by_contra hhidden
  have hlength := length_le_length_encode (componentText component)
  rw [← shown, hsame, componentText, if_neg hhidden, List.length_cons, List.length_cons,
    length_hexDigits] at hlength
  omega

theorem slash_notMem_hexDigits (bytes : Octets) : '/' ∉ Octets.hexDigits bytes := by
  have hdigit : ∀ n < 16, Octets.hexDigit n ≠ '/' := by decide
  intro hmem
  obtain ⟨b, -, hb⟩ := List.mem_flatMap.1 hmem
  have hlt := b.toNat_lt
  rcases List.mem_cons.1 hb with hhigh | hlow
  · exact hdigit _ (by omega) hhigh.symm
  · exact hdigit _ (by omega) (List.mem_singleton.1 hlow).symm

theorem slash_notMem_componentText (component : Octets) : '/' ∉ componentText component := by
  unfold componentText
  split
  · rename_i hprintable
    intro hmem
    obtain ⟨b, hb, hslash⟩ := List.mem_map.1 hmem
    have hvalue := congrArg Char.toNat hslash
    rw [char_ofNat_toNat] at hvalue
    exact (printable_iff.1 hprintable b hb).2 (UInt8.toNat_inj.1 hvalue)
  · simp [slash_notMem_hexDigits]

theorem componentText_ne_nil (h : component ≠ []) : componentText component ≠ [] := by
  unfold componentText
  split
  · simpa using h
  · exact List.cons_ne_nil _ _

theorem text_eq (h : n.components ≠ []) :
    n.text = (n.components.map componentText).flatMap ('/' :: ·) := by
  rw [List.flatMap_map]
  unfold text
  split
  · contradiction
  · rfl

theorem ofText_text (h : [] ∉ n.components) : ofText n.text = ⟨n.components.map shown⟩ := by
  by_cases hempty : n.components = []
  · rw [text, hempty]
    rfl
  have hscheme : dropScheme n.text = n.text := by
    rw [text_eq hempty]
    obtain ⟨component, rest, hcomponents⟩ := List.exists_cons_of_ne_nil hempty
    rw [hcomponents]
    rfl
  have hslash : ∀ p ∈ n.components.map componentText, '/' ∉ p := by
    intro p hp
    obtain ⟨component, -, rfl⟩ := List.mem_map.1 hp
    exact slash_notMem_componentText component
  have hfilter : ([] :: n.components.map componentText).filter (!·.isEmpty) =
      n.components.map componentText := by
    rw [List.filter_cons_of_neg (by simp), List.filter_eq_self]
    intro p hp
    obtain ⟨component, hcomponent, rfl⟩ := List.mem_map.1 hp
    simpa using componentText_ne_nil (ne_of_mem_of_not_mem hcomponent h)
  rw [ofText, hscheme, text_eq hempty, pieces_flatMap hslash, hfilter, List.map_map]
  rfl

theorem ofText_text_eq_iff (h : [] ∉ n.components) :
    ofText n.text = n ↔ ∀ component ∈ n.components, printable component := by
  have hmap := @List.map_inj_left _ _ n.components shown id
  rw [List.map_id] at hmap
  rw [ofText_text h, Name.mk.injEq, hmap]
  exact forall₂_congr fun component _ => shown_eq_self_iff

theorem nil_notMem_ofText (cs : List Char) : [] ∉ (ofText cs).components := by
  intro hmem
  obtain ⟨piece, hpiece, hnil⟩ := List.mem_map.1 hmem
  obtain ⟨c, hc⟩ := List.exists_mem_of_ne_nil piece (by simpa using (List.mem_filter.1 hpiece).2)
  have hlength : piece.length ≤ 0 :=
    Nat.le_trans (length_le_length_encode piece) (Nat.le_of_eq (congrArg List.length hnil))
  exact absurd (List.length_pos_of_mem hc) (Nat.not_lt.2 hlength)

theorem forall_mem_dropScheme :
    (∀ c ∈ dropScheme cs, Visible c) ↔ ∀ c ∈ cs, Visible c := by
  unfold dropScheme
  split
  · simp only [List.forall_mem_cons]
    have hscheme : Visible 'c' ∧ Visible 'n' ∧ Visible 'x' ∧ Visible ':' := by decide
    tauto
  · rfl

theorem printable_ofText_iff :
    (∀ component ∈ (ofText cs).components, printable component) ↔ ∀ c ∈ cs, Visible c := by
  have hslash : Visible '/' := by decide
  have hpieces : (∀ component ∈ (ofText cs).components, printable component) ↔
      ∀ c ∈ (pieces '/' (dropScheme cs)).flatten, Visible c ∧ c ≠ '/' := by
    simp only [ofText, List.forall_mem_map, printable_encode, List.mem_filter, List.mem_flatten]
    constructor
    · rintro h c ⟨piece, hpiece, hc⟩
      exact h piece ⟨hpiece, by simpa using List.ne_nil_of_mem hc⟩ c hc
    · rintro h piece ⟨hpiece, -⟩ c hc
      exact h c ⟨piece, hpiece, hc⟩
  rw [hpieces, flatten_pieces, ← forall_mem_dropScheme]
  simp only [List.mem_filter, decide_eq_true_eq]
  constructor
  · intro h c hc
    by_cases hsame : c = '/'
    · exact hsame ▸ hslash
    · exact (h c ⟨hc, hsame⟩).1
  · intro h c hc
    exact ⟨h c hc.1, hc.2⟩

theorem ofString_toString (s : String) :
    ofString (ofString s).toString = ⟨(ofString s).components.map shown⟩ := by
  rw [toString, ofString, String.toList_ofList]
  exact ofText_text (nil_notMem_ofText _)

theorem ofString_toString_eq_iff (s : String) :
    ofString (ofString s).toString = ofString s ↔ ∀ c ∈ s.toList, Visible c := by
  rw [toString, ofString, String.toList_ofList, ofString,
    ofText_text_eq_iff (nil_notMem_ofText _), printable_ofText_iff]

end Name
end NamedData
