import Mathlib.Data.List.Basic
import Mathlib.Data.List.TakeDrop
import Mathlib.Data.List.TakeWhile
import NamedData.Text.Blank
import NamedData.Text.Pieces

/-!
# Parts of a text

A text is split at the first mark in it. Its words do not depend on the blanks around them, and its
lines are those that were joined to make it.
-/

namespace NamedData.Text

variable {b mark : Char} {cs before after blanks word line rest : List Char} {ws : List (List Char)}

/-! ## Splitting at a mark -/

theorem forall_decide_ne (h : mark ∉ cs) : ∀ c ∈ cs, decide (c ≠ mark) = true :=
  fun _ hc => decide_eq_true (ne_of_mem_of_not_mem hc h)

theorem splitAt?_append (h : mark ∉ before) (after : List Char) :
    splitAt? mark (before ++ mark :: after) = some (before, after) := by
  have hbefore := forall_decide_ne h
  rw [splitAt?, List.span_eq_takeWhile_dropWhile, List.takeWhile_append_of_pos hbefore,
    List.dropWhile_append_of_pos hbefore]
  simp

theorem splitAt?_eq_none (h : mark ∉ cs) : splitAt? mark cs = none := by
  rw [splitAt?, List.span_eq_takeWhile_dropWhile, List.dropWhile_eq_nil_iff.2 (forall_decide_ne h)]

theorem splitAt?_eq_some_iff :
    splitAt? mark cs = some (before, after) ↔ cs = before ++ mark :: after ∧ mark ∉ before := by
  constructor
  · intro h
    by_cases hmark : mark ∈ cs
    · obtain ⟨front, rest, rfl, hfront⟩ := List.eq_append_cons_of_mem hmark
      rw [splitAt?_append hfront] at h
      obtain ⟨rfl, rfl⟩ := Prod.mk.inj (Option.some.inj h)
      exact ⟨rfl, hfront⟩
    · rw [splitAt?_eq_none hmark] at h
      cases h
  · rintro ⟨rfl, hmark⟩
    exact splitAt?_append hmark after

/-! ## Words -/

/-- A word: some characters, none of them a blank. -/
structure IsWord (cs : List Char) : Prop where
  ne_nil : cs ≠ []
  notBlank : ∀ c ∈ cs, isBlank c = false

instance : DecidablePred IsWord := fun cs =>
  decidable_of_iff (cs ≠ [] ∧ cs.all (!isBlank ·))
    ⟨fun h => ⟨h.1, by simpa using h.2⟩, fun h => ⟨h.ne_nil, by simpa using h.notBlank⟩⟩

/-- Words with any blanks around them, and at least one between two of them. -/
inductive Spaced : List (List Char) → List Char → Prop
  | blanks {blanks : List Char} (blank : ∀ c ∈ blanks, isBlank c) : Spaced [] blanks
  | word {blanks word rest : List Char} {ws : List (List Char)} (blank : ∀ c ∈ blanks, isBlank c)
    (isWord : IsWord word) (apart : ∀ c ∈ rest.head?, isBlank c) (spaced : Spaced ws rest) :
    Spaced (word :: ws) (blanks ++ (word ++ rest))

theorem words_go_blanks (h : ∀ c ∈ blanks, isBlank c) (cs : List Char) :
    words.go [] (blanks ++ cs) = words.go [] cs := by
  induction blanks with
  | nil => rfl
  | cons b blanks ih =>
    obtain ⟨hb, hblanks⟩ := List.forall_mem_cons.1 h
    rw [List.cons_append, words.go, if_pos hb, if_pos List.isEmpty_nil, ih hblanks]

theorem words_go_word (h : ∀ c ∈ word, isBlank c = false) (read cs : List Char) :
    words.go read (word ++ cs) = words.go (word.reverse ++ read) cs := by
  induction word generalizing read with
  | nil => rfl
  | cons c word ih =>
    obtain ⟨hc, hword⟩ := List.forall_mem_cons.1 h
    rw [List.cons_append, words.go, hc, if_neg Bool.false_ne_true, ih hword, List.reverse_cons,
      List.append_assoc, List.singleton_append]

theorem words_go_apart {read : List Char} (hread : read ≠ []) (h : ∀ c ∈ rest.head?, isBlank c) :
    words.go read rest = read.reverse :: words.go [] rest := by
  have hempty : read.isEmpty = false := by simpa using hread
  cases rest with
  | nil => simp [words.go, hread]
  | cons c rest => simp [words.go, h c rfl, hempty]

/-- The words of a text are those that stand in it. -/
theorem words_of_spaced (h : Spaced ws cs) : words cs = ws := by
  unfold words
  induction h with
  | blanks hblank => simpa [words.go] using words_go_blanks hblank []
  | @word blanks word rest ws hblank hword hrest _ ih =>
    have hread : word.reverse ≠ [] := by simpa using hword.ne_nil
    rw [words_go_blanks hblank, words_go_word hword.notBlank, List.append_nil,
      words_go_apart hread hrest, List.reverse_reverse, ih]

theorem Spaced.cons_blank (h : Spaced ws cs) (hb : isBlank b) : Spaced ws (b :: cs) := by
  cases h with
  | blanks hblank => exact .blanks (List.forall_mem_cons.2 ⟨hb, hblank⟩)
  | word hblank hword hapart hspaced =>
    exact .word (List.forall_mem_cons.2 ⟨hb, hblank⟩) hword hapart hspaced

/-- A character in front of a text is a word of its own if a blank follows, and otherwise begins the
first word. -/
theorem Spaced.exists_cons (h : Spaced ws cs) (hb : isBlank b = false) :
    ∃ ws, Spaced ws (b :: cs) := by
  have hb' : IsWord [b] := ⟨nofun, by simpa using hb⟩
  have hnone : ∀ c ∈ ([] : List Char), isBlank c := nofun
  cases h with
  | blanks hblank =>
    exact ⟨_, .word hnone hb' (fun c hc => hblank c (List.mem_of_mem_head? hc)) (.blanks hblank)⟩
  | @word blanks word rest ws hblank hword hapart hspaced =>
    cases blanks with
    | nil =>
      have hword' : IsWord (b :: word) :=
        ⟨nofun, List.forall_mem_cons.2 ⟨hb, hword.notBlank⟩⟩
      exact ⟨_, .word hnone hword' hapart hspaced⟩
    | cons c blanks =>
      refine ⟨_, .word hnone hb' ?_ (.word hblank hword hapart hspaced)⟩
      rintro _ ⟨⟩
      exact hblank c List.mem_cons_self

theorem exists_spaced (cs : List Char) : ∃ ws, Spaced ws cs := by
  induction cs with
  | nil => exact ⟨[], .blanks nofun⟩
  | cons b cs ih =>
    obtain ⟨ws, h⟩ := ih
    cases hb : isBlank b with
    | true => exact ⟨ws, h.cons_blank hb⟩
    | false => exact h.exists_cons hb

theorem words_eq_iff : words cs = ws ↔ Spaced ws cs := by
  constructor
  · rintro rfl
    obtain ⟨ws, h⟩ := exists_spaced cs
    rwa [words_of_spaced h]
  · exact words_of_spaced

theorem Spaced.mem (h : Spaced ws cs) {c : Char} (hc : c ∈ cs) (hblank : isBlank c = false) :
    ∃ w ∈ ws, c ∈ w := by
  have hnone {blanks : List Char} (hall : ∀ c ∈ blanks, isBlank c) : c ∉ blanks := by
    intro hmem
    rw [hall c hmem] at hblank
    cases hblank
  induction h with
  | blanks hall => exact absurd hc (hnone hall)
  | @word blanks word rest ws hall _ _ _ ih =>
    rcases List.mem_append.1 hc with hc | hc
    · exact absurd hc (hnone hall)
    · rcases List.mem_append.1 hc with hc | hc
      · exact ⟨word, List.mem_cons_self, hc⟩
      · obtain ⟨w, hw, hcw⟩ := ih hc
        exact ⟨w, List.mem_cons_of_mem _ hw, hcw⟩

theorem words_append_blank (hb : isBlank b) (cs : List Char) : words (cs ++ [b]) = words cs := by
  have hgo (read : List Char) : words.go read (cs ++ [b]) = words.go read cs := by
    induction cs generalizing read with
    | nil => cases read <;> simp [words.go, hb]
    | cons c cs ih => simp only [List.cons_append, words.go, ih]
  exact hgo []

/-! ## Lines -/

theorem lines_go_append (h : '\n' ∉ line) (read rest : List Char) :
    lines.go read (line ++ rest) = lines.go (line.reverse ++ read) rest := by
  induction line generalizing read with
  | nil => rfl
  | cons c line ih =>
    have hc : c ≠ '\n' := fun heq => h (heq ▸ List.mem_cons_self)
    have hline : '\n' ∉ line := fun hmem => h (List.mem_cons_of_mem _ hmem)
    rw [List.cons_append, lines.go, if_neg hc, ih hline, List.reverse_cons, List.append_assoc,
      List.singleton_append]

theorem lines_append (h : '\n' ∉ line) (rest : List Char) :
    lines (line ++ '\n' :: rest) = dropReturn line :: lines rest := by
  rw [lines, lines_go_append h, List.append_nil, lines.go, if_pos rfl, List.reverse_reverse, lines]

theorem lines_of_notMem (hne : line ≠ []) (h : '\n' ∉ line) : lines line = [line] := by
  have hgo := lines_go_append h [] []
  rw [List.append_nil, List.append_nil] at hgo
  rw [lines, hgo, lines.go, List.isEmpty_reverse, List.reverse_reverse, if_neg]
  simpa using hne

theorem dropReturn_cases (line : List Char) :
    dropReturn line = line ∨ line = dropReturn line ++ ['\r'] := by
  unfold dropReturn
  split
  · rename_i hlast
    exact .inr (List.dropLast_append_getLast? '\r' hlast).symm
  · exact .inl rfl

theorem notMem_of_mem_lines_go {read : List Char} (hread : '\n' ∉ read)
    (h : line ∈ lines.go read cs) : '\n' ∉ line := by
  induction cs generalizing read with
  | nil =>
    rw [lines.go] at h
    split at h
    · cases h
    · rw [List.mem_singleton.1 h, List.mem_reverse]
      exact hread
  | cons c cs ih =>
    rw [lines.go] at h
    split at h
    · rcases List.mem_cons.1 h with rfl | h
      · rw [← List.mem_reverse] at hread
        rcases dropReturn_cases read.reverse with hsame | hsame
        · rwa [hsame]
        · rw [hsame] at hread
          exact fun hmem => hread (List.mem_append_left _ hmem)
      · exact ih List.not_mem_nil h
    · rename_i hc
      refine ih ?_ h
      rw [List.mem_cons]
      rintro (hnewline | hmem)
      · exact hc hnewline.symm
      · exact hread hmem

theorem notMem_of_mem_lines (h : line ∈ lines cs) : '\n' ∉ line :=
  notMem_of_mem_lines_go List.not_mem_nil h

end NamedData.Text
