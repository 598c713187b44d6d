import NamedData.Proofs.Route.Addressing
import NamedData.Proofs.Text.Parts
import NamedData.Route.File

/-!
# Route files line by line

A route is listed on a line of its own. Blank lines, comments and further blanks between the words do
not change what is read. A file with a fault is rejected as a whole, and the fault is that of the
first line which would be rejected if it were the whole file.
-/

namespace NamedData.StaticRoute

open Text

/-- A route as it is listed in a file, with the texts of its neighbours. -/
structure Listing where
  namePrefix : String
  transport : Transport
  neighbours : List String
deriving DecidableEq

def listing (r : StaticRoute) : Listing := ⟨r.namePrefix, r.transport, r.neighbours.map Address.toString⟩

/-- A word that does not begin a comment or contain one. -/
structure PlainWord (word : String) : Prop where
  isWord : IsWord word.toList
  noComment : '#' ∉ word.toList

instance : DecidablePred PlainWord := fun _ =>
  decidable_of_iff (_ ∧ _) ⟨fun h => ⟨h.1, h.2⟩, fun h => ⟨h.isWord, h.noComment⟩⟩

namespace Listing

def words (l : Listing) : List (List Char) :=
  l.namePrefix.toList :: l.transport.label.toList :: l.neighbours.map String.toList

/-- A route that can be listed, with its neighbours in full form. -/
structure Plain (l : Listing) : Prop where
  namePrefix : PlainWord l.namePrefix
  transport : l.transport = .udp ∨ l.transport = .tcp
  neighbours_ne_nil : l.neighbours ≠ []
  neighbours : ∀ n ∈ l.neighbours, PlainWord n ∧ Address.normalize n = .ok n

instance : DecidablePred Plain := fun _ =>
  decidable_of_iff (_ ∧ _ ∧ _ ∧ _)
    ⟨fun h => ⟨h.1, h.2.1, h.2.2.1, h.2.2.2⟩,
      fun h => ⟨h.namePrefix, h.transport, h.neighbours_ne_nil, h.neighbours⟩⟩

end Listing

/-- A line with some words, any blanks around them, and a comment behind them or none. -/
structure Shows (ws : List (List Char)) (line : List Char) : Prop where
  oneLine : '\n' ∉ line
  parts : ∃ part, Spaced ws part ∧ (line = part ∨ ∃ comment, line = part ++ '#' :: comment)

/-- Lines that list routes, one route a line, with lines without words before, between and behind. -/
inductive Lists : List Listing → List (List Char) → Prop
  | nil : Lists [] []
  | skip {listings : List Listing} {line : List Char} {lines : List (List Char)}
    (shows : Shows [] line) (rest : Lists listings lines) : Lists listings (line :: lines)
  | route {l : Listing} {listings : List Listing} {line : List Char} {lines : List (List Char)}
    (shows : Shows l.words line) (rest : Lists listings lines) :
    Lists (l :: listings) (line :: lines)

/-- A line that says something before its comment and that is rejected as a file of its own. -/
def Invalid (line : List Char) : Prop :=
  withoutComment line ≠ [] ∧ ∃ e, parseFile (String.ofList line) = .error e

variable {line part : List Char} {before lines : List (List Char)} {ws : List (List Char)}
  {l : Listing} {listings : List Listing} {number : Nat} {fault : Fault} {e : FileError}

theorem withoutComment_of_notMem (h : '#' ∉ line) : withoutComment line = line :=
  List.takeWhile_eq_self_iff.2 (forall_decide_ne h)

theorem withoutComment_append (h : '#' ∉ part) (comment : List Char) :
    withoutComment (part ++ '#' :: comment) = part := by
  rw [withoutComment, List.takeWhile_append_of_pos (forall_decide_ne h)]
  simp

theorem words_of_shows (h : Shows ws line) (hws : ∀ w ∈ ws, '#' ∉ w) :
    Text.words (withoutComment line) = ws := by
  obtain ⟨part, hspaced, hline⟩ := h.parts
  have hpart : '#' ∉ part := by
    intro hmem
    obtain ⟨w, hw, hcomment⟩ := hspaced.mem hmem (by decide)
    exact hws w hw hcomment
  rcases hline with rfl | ⟨comment, rfl⟩
  · rw [withoutComment_of_notMem hpart, words_of_spaced hspaced]
  · rw [withoutComment_append hpart, words_of_spaced hspaced]

theorem parseLine_of_no_words (h : Text.words (withoutComment line) = []) :
    parseLine line = .ok none := by
  rw [parseLine, h]

theorem transport?_label {t : Transport} (h : t = .udp ∨ t = .tcp) : transport? t.label = some t := by
  rcases h with rfl | rfl <;> decide +kernel

theorem parseNeighbours_of_normalized {neighbours : List String}
    (h : ∀ n ∈ neighbours, Address.normalize n = .ok n) :
    ∃ addresses, parseNeighbours (neighbours.map String.toList) = .ok addresses ∧
      addresses.map Address.toString = neighbours := by
  induction neighbours with
  | nil => exact ⟨[], rfl, rfl⟩
  | cons n neighbours ih =>
    obtain ⟨hn, hneighbours⟩ := List.forall_mem_cons.1 h
    obtain ⟨a, hread, hshown⟩ := Address.normalize_eq_ok_iff.1 hn
    obtain ⟨addresses, hrest, hall⟩ := ih hneighbours
    refine ⟨a :: addresses, ?_, by rw [List.map_cons, ← hshown, hall]⟩
    unfold parseNeighbours at hrest ⊢
    rw [List.map_cons, List.mapM_cons, hread, hrest]
    rfl

theorem parseLine_of_shows (hplain : l.Plain) (h : Shows l.words line) :
    ∃ r, parseLine line = .ok (some r) ∧ r.listing = l := by
  have hcomment : ∀ w ∈ l.words, '#' ∉ w := by
    intro w hw
    rcases List.mem_cons.1 hw with rfl | hw
    · exact hplain.namePrefix.noComment
    · rcases List.mem_cons.1 hw with rfl | hw
      · rcases hplain.transport with htransport | htransport <;> rw [htransport] <;> decide +kernel
      · obtain ⟨n, hn, rfl⟩ := List.mem_map.1 hw
        exact (hplain.neighbours n hn).1.noComment
  obtain ⟨addresses, hread, hshown⟩ :=
    parseNeighbours_of_normalized fun n hn => (hplain.neighbours n hn).2
  have hne : addresses ≠ [] := by
    rintro rfl
    exact hplain.neighbours_ne_nil hshown.symm
  refine ⟨⟨l.namePrefix, l.transport, addresses⟩, ?_, by rw [listing, hshown]⟩
  -- The branch for a line without neighbours is ruled out by `hne`.
  simp only [parseLine, words_of_shows h hcomment, Listing.words, String.ofList_toList,
    transport?_label hplain.transport, hread]

/-- The carriage return of a line end is a blank, or belongs to the comment. -/
theorem parseLine_dropReturn (line : List Char) : parseLine (dropReturn line) = parseLine line := by
  have hwords : ∀ line, Text.words (withoutComment (line ++ ['\r'])) =
      Text.words (withoutComment line) := by
    intro line
    by_cases hcomment : '#' ∈ line
    · obtain ⟨part, rest, rfl, hpart⟩ := List.eq_append_cons_of_mem hcomment
      rw [List.append_assoc, List.cons_append, withoutComment_append hpart,
        withoutComment_append hpart]
    · have hreturn : '#' ∉ line ++ ['\r'] := by simpa using hcomment
      rw [withoutComment_of_notMem hreturn, withoutComment_of_notMem hcomment,
        words_append_blank (by decide)]
  rcases dropReturn_cases line with hsame | hsame
  · rw [hsame]
  · conv_rhs => rw [hsame]
    simp only [parseLine, hwords]

theorem parseLines_cons_of_error (h : parseLine line = .error fault) :
    parseLines number (line :: lines) = .error e ↔ e = ⟨number, fault⟩ := by
  rw [parseLines, h, Except.error.injEq, eq_comm]

theorem parseLines_cons_eq_error_iff (h : ∀ fault, parseLine line ≠ .error fault) :
    parseLines number (line :: lines) = .error e ↔ parseLines (number + 1) lines = .error e := by
  cases hline : parseLine line with
  | error fault => exact absurd hline (h fault)
  | ok found =>
    cases found with
    | none => rw [parseLines, hline]
    | some r =>
      cases hlines : parseLines (number + 1) lines <;> simp [parseLines, hline, hlines]

/-- The fault of a file is that of the first line with a fault. -/
theorem parseLines_eq_error_iff :
    parseLines number lines = .error e ↔ ∃ before line after, lines = before ++ line :: after ∧
      (∀ l ∈ before, ∀ fault, parseLine l ≠ .error fault) ∧ parseLine line = .error e.fault ∧
      e.line = number + before.length := by
  induction lines generalizing number with
  | nil => simp [parseLines]
  | cons first rest ih =>
    by_cases hfirst : ∀ fault, parseLine first ≠ .error fault
    · rw [parseLines_cons_eq_error_iff hfirst, ih]
      constructor
      · rintro ⟨before, line, after, rfl, hbefore, hline, hnumber⟩
        refine ⟨first :: before, line, after, rfl, ?_, hline, ?_⟩
        · exact List.forall_mem_cons.2 ⟨hfirst, hbefore⟩
        · rw [hnumber, List.length_cons]
          omega
      · rintro ⟨before, line, after, hsplit, hbefore, hline, hnumber⟩
        cases before with
        | nil =>
          obtain ⟨rfl, rfl⟩ := List.cons.inj hsplit
          exact absurd hline (hfirst e.fault)
        | cons _ before =>
          obtain ⟨rfl, rfl⟩ := List.cons.inj hsplit
          refine ⟨before, line, after, rfl, (List.forall_mem_cons.1 hbefore).2, hline, ?_⟩
          rw [hnumber, List.length_cons]
          omega
    · push Not at hfirst
      obtain ⟨fault, hfault⟩ := hfirst
      rw [parseLines_cons_of_error hfault]
      constructor
      · rintro rfl
        exact ⟨[], first, rest, rfl, nofun, hfault, rfl⟩
      · rintro ⟨before, line, after, hsplit, hbefore, hline, hnumber⟩
        cases before with
        | nil =>
          obtain ⟨rfl, rfl⟩ := List.cons.inj hsplit
          obtain ⟨found, cause⟩ := e
          rw [Except.error.inj (hfault.symm.trans hline), show found = number from hnumber]
        | cons _ before =>
          obtain ⟨rfl, rfl⟩ := List.cons.inj hsplit
          exact absurd hfault (hbefore _ List.mem_cons_self fault)

theorem exists_parseLines_error_iff :
    (∃ e, parseLines number lines = .error e) ↔
      ∃ line ∈ lines, ∃ fault, parseLine line = .error fault := by
  constructor
  · rintro ⟨e, he⟩
    obtain ⟨before, line, after, rfl, -, hline, -⟩ := parseLines_eq_error_iff.1 he
    exact ⟨line, by simp, e.fault, hline⟩
  · rintro ⟨line, hmem, fault, hfault⟩
    induction lines generalizing number with
    | nil => cases hmem
    | cons first rest ih =>
      by_cases hfirst : ∀ fault, parseLine first ≠ .error fault
      · rcases List.mem_cons.1 hmem with rfl | hmem
        · exact absurd hfault (hfirst fault)
        · obtain ⟨e, he⟩ : ∃ e, parseLines (number + 1) rest = .error e := ih hmem
          exact ⟨e, (parseLines_cons_eq_error_iff hfirst).2 he⟩
      · push Not at hfirst
        obtain ⟨cause, hcause⟩ := hfirst
        exact ⟨_, (parseLines_cons_of_error hcause).2 rfl⟩

theorem parseLines_intercalate (h : ∀ line ∈ lines, '\n' ∉ line) :
    parseLines number (Text.lines (['\n'].intercalate lines)) = parseLines number lines := by
  induction lines generalizing number with
  | nil => rfl
  | cons line rest ih =>
    obtain ⟨hline, hrest⟩ := List.forall_mem_cons.1 h
    cases rest with
    | nil =>
      rw [List.intercalate_singleton]
      by_cases hempty : line = []
      · rw [hempty]
        rfl
      · rw [lines_of_notMem hempty hline]
    | cons next rest =>
      rw [List.intercalate_cons_cons, List.append_assoc, List.singleton_append, lines_append hline,
        parseLines, parseLines, parseLine_dropReturn, ih hrest]

theorem parseFile_ofList (h : '\n' ∉ line) : parseFile (String.ofList line) = parseLines 1 [line] := by
  have hread : parseLines 1 (Text.lines (['\n'].intercalate [line])) = parseLines 1 [line] :=
    parseLines_intercalate (by simpa using h)
  rw [List.intercalate_singleton] at hread
  rwa [parseFile, String.toList_ofList]

theorem withoutComment_ne_nil (h : parseLine line = .error fault) : withoutComment line ≠ [] := by
  intro hempty
  rw [parseLine_of_no_words (by rw [hempty]; rfl)] at h
  cases h

theorem parseFile_ofList_eq_error_iff (h : '\n' ∉ line) :
    parseFile (String.ofList line) = .error e ↔ parseLine line = .error e.fault ∧ e.line = 1 := by
  rw [parseFile_ofList h, parseLines]
  obtain ⟨number, fault⟩ := e
  cases parseLine line with
  | error fault => simp [eq_comm, and_comm]
  | ok found => cases found <;> simp [parseLines]

theorem invalid_iff (h : '\n' ∉ line) : Invalid line ↔ ∃ fault, parseLine line = .error fault := by
  constructor
  · rintro ⟨-, e, he⟩
    exact ⟨e.fault, ((parseFile_ofList_eq_error_iff h).1 he).1⟩
  · rintro ⟨fault, hfault⟩
    refine ⟨withoutComment_ne_nil hfault, ⟨1, fault⟩, ?_⟩
    exact (parseFile_ofList_eq_error_iff h).2 ⟨hfault, rfl⟩

theorem Lists.oneLine (h : Lists listings lines) : ∀ line ∈ lines, '\n' ∉ line := by
  induction h with
  | nil => exact nofun
  | skip hshows _ ih => exact List.forall_mem_cons.2 ⟨hshows.oneLine, ih⟩
  | route hshows _ ih => exact List.forall_mem_cons.2 ⟨hshows.oneLine, ih⟩

theorem parseLines_of_lists (h : Lists listings lines) (hplain : ∀ l ∈ listings, l.Plain) :
    (parseLines number lines).map (List.map listing) = .ok listings := by
  induction h generalizing number with
  | nil => rfl
  | skip hshows _ ih =>
    rw [parseLines, parseLine_of_no_words (words_of_shows hshows nofun)]
    exact ih hplain
  | @route l listings line lines hshows _ ih =>
    obtain ⟨hl, hrest⟩ := List.forall_mem_cons.1 hplain
    obtain ⟨r, hread, rfl⟩ := parseLine_of_shows hl hshows
    have hih : (parseLines (number + 1) lines).map (List.map listing) = .ok listings := ih hrest
    rw [parseLines, hread]
    cases hlines : parseLines (number + 1) lines with
    | error e => simp [hlines, Except.map] at hih
    | ok routes =>
      rw [hlines] at hih
      simpa [Except.map] using hih

/-- A file that lists routes is read as these routes, and nothing else. A file is rejected if and only
if one of its lines is invalid, with the number of the first such line and with its fault. -/
theorem parseFile_line_by_line (text : String) :
    (∀ listings lines, (∀ l ∈ listings, Listing.Plain l) → Lists listings lines →
      text.toList = ['\n'].intercalate lines →
        (parseFile text).map (List.map listing) = .ok listings) ∧
    ((∃ e, parseFile text = .error e) ↔ ∃ line ∈ Text.lines text.toList, Invalid line) ∧
    ∀ e, parseFile text = .error e ↔ ∃ before line after,
      Text.lines text.toList = before ++ line :: after ∧ (∀ l ∈ before, ¬Invalid l) ∧
      Invalid line ∧ parseFile (String.ofList line) = .error ⟨1, e.fault⟩ ∧
      e.line = before.length + 1 := by
  have hone : ∀ line ∈ Text.lines text.toList, '\n' ∉ line := fun _ => notMem_of_mem_lines
  refine ⟨?_, ?_, fun e => ?_⟩
  · intro listings lines hplain hlists htext
    rw [parseFile, htext, parseLines_intercalate hlists.oneLine]
    exact parseLines_of_lists hlists hplain
  · rw [parseFile, exists_parseLines_error_iff]
    exact exists_congr fun line => and_congr_right fun hline => (invalid_iff (hone line hline)).symm
  · rw [parseFile, parseLines_eq_error_iff]
    refine exists_congr fun before => exists_congr fun line => exists_congr fun after =>
      and_congr_right fun hsplit => ?_
    rw [hsplit] at hone
    have hline : '\n' ∉ line := hone line (by simp)
    have hbefore : (∀ l ∈ before, ¬Invalid l) ↔ ∀ l ∈ before, ∀ fault, parseLine l ≠ .error fault := by
      refine forall₂_congr fun l hl => ?_
      rw [invalid_iff (hone l (List.mem_append_left _ hl)), not_exists]
    rw [hbefore, invalid_iff hline, parseFile_ofList_eq_error_iff hline, Nat.add_comm 1]
    constructor
    · rintro ⟨hfirst, hfault, hnumber⟩
      exact ⟨hfirst, ⟨e.fault, hfault⟩, ⟨hfault, rfl⟩, hnumber⟩
    · rintro ⟨hfirst, -, ⟨hfault, -⟩, hnumber⟩
      exact ⟨hfirst, hfault, hnumber⟩

theorem parseFile_line_by_line_small :
    (parseFile "/a udp h:1 # x\n\n  /b\ttcp [::1]:9 y:2\r\n").map (List.map listing) =
      .ok [⟨"/a", .udp, ["h:1"]⟩, ⟨"/b", .tcp, ["[::1]:9", "y:2"]⟩] ∧
    parseFile "# c\n/b sctp h\n/c" = .error ⟨2, .protocol "sctp"⟩ := by
  constructor
  · have hplain : ∀ l ∈ [⟨"/a", .udp, ["h:1"]⟩, ⟨"/b", .tcp, ["[::1]:9", "y:2"]⟩],
        Listing.Plain l := by
      decide +kernel
    have hblank : Shows [] [] := ⟨List.not_mem_nil, [], .blanks nofun, .inl rfl⟩
    have hfirst : Shows (Listing.words ⟨"/a", .udp, ["h:1"]⟩) "/a udp h:1 # x".toList :=
      ⟨by decide +kernel, "/a udp h:1 ".toList, words_eq_iff.1 (by decide +kernel),
        .inr ⟨" x".toList, by decide +kernel⟩⟩
    have hsecond : Shows (Listing.words ⟨"/b", .tcp, ["[::1]:9", "y:2"]⟩)
        "  /b\ttcp [::1]:9 y:2\r".toList :=
      ⟨by decide +kernel, _, words_eq_iff.1 (by decide +kernel), .inl rfl⟩
    have hlists := Lists.route hfirst (.skip hblank (.route hsecond (.skip hblank .nil)))
    exact (parseFile_line_by_line _).1 _ _ hplain hlists (by decide +kernel)
  · have hcomment : parseFile (String.ofList "# c".toList) = .ok [] := by decide +kernel
    have hfault : parseFile (String.ofList "/b sctp h".toList) = .error ⟨1, .protocol "sctp"⟩ := by
      decide +kernel
    refine ((parseFile_line_by_line _).2.2 _).2 ⟨["# c".toList], "/b sctp h".toList,
      ["/c".toList], by decide +kernel, ?_, ⟨by decide +kernel, _, hfault⟩, hfault, rfl⟩
    rw [List.forall_mem_singleton]
    rintro ⟨-, e, he⟩
    rw [hcomment] at he
    cases he

end NamedData.StaticRoute
