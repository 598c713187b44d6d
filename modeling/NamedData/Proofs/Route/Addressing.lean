import Mathlib.Data.List.Basic
import NamedData.Proofs.Text.Numbers
import NamedData.Proofs.Text.Parts
import NamedData.Route.Address

/-!
# How neighbours are written

A neighbour is written as a host or as a literal in brackets, with a port or without, or as a bare
literal, which has colons of its own and no port. What is inside a host or a literal is not looked
at, except that a bracketed literal ends at the first closing bracket. The full form, with the port
filled in, is read as the same neighbour, unless it comes from a bare literal with a closing bracket.
-/

namespace NamedData

namespace Address

open Text

/-- The text of a neighbour with the port filled in. -/
def normalize (text : String) : Except AddressError String :=
  (parse text.toList).map Address.toString

/-- The characters of a neighbour with its port, in brackets or without. -/
def full (a : Address) : List Char :=
  if a.bracketed then '[' :: (a.host ++ ']' :: ':' :: Nat.toDigits 10 a.port.toNat)
  else a.host ++ ':' :: Nat.toDigits 10 a.port.toNat

inductive Written : List Char → Address → Prop
  | host {host : List Char} (ne_nil : host ≠ []) (bracket : host.head? ≠ some '[')
    (colon : ':' ∉ host) : Written host ⟨host, false, defaultPort⟩
  | hostPort {host port : List Char} {number : UInt16} (ne_nil : host ≠ [])
    (bracket : host.head? ≠ some '[') (colon : ':' ∉ host) (spells : Spells port number.toNat) :
    Written (host ++ ':' :: port) ⟨host, false, number⟩
  | bare {literal : List Char} (bracket : literal.head? ≠ some '[')
    (colons : 1 < literal.count ':') : Written literal ⟨literal, true, defaultPort⟩
  | literal {literal : List Char} (ne_nil : literal ≠ []) (bracket : ']' ∉ literal) :
    Written ('[' :: (literal ++ [']'])) ⟨literal, true, defaultPort⟩
  | literalPort {literal port : List Char} {number : UInt16} (ne_nil : literal ≠ [])
    (bracket : ']' ∉ literal) (spells : Spells port number.toNat) :
    Written ('[' :: (literal ++ ']' :: ':' :: port)) ⟨literal, true, number⟩

/-- Brackets around nothing, or with something else than a colon right behind them. -/
def Irregular (cs : List Char) : Prop :=
  ∃ literal tail, cs = '[' :: (literal ++ ']' :: tail) ∧ ']' ∉ literal ∧
    (literal = [] ∨ ∃ c rest, tail = c :: rest ∧ c ≠ ':')

/-- A literal without brackets around it in which there is a closing bracket. -/
def BracketInBare (cs : List Char) : Prop :=
  cs.head? ≠ some '[' ∧ 1 < cs.count ':' ∧ ']' ∈ cs

variable {cs host tail literal port : List Char} {a : Address} {number : UInt16}

theorem parse_of_bracket (h : ']' ∉ literal) (tail : List Char) :
    parse ('[' :: (literal ++ ']' :: tail)) =
      match bracketPort? tail with
      | some port => .ok ⟨literal, true, port⟩
      | none => .error (.port (String.ofList ('[' :: (literal ++ ']' :: tail)))) := by
  cases hport : bracketPort? tail <;> simp [parse, splitAt?_append h, hport]

theorem parse_of_ne_bracket (hne : cs ≠ []) (hbracket : cs.head? ≠ some '[') :
    parse cs =
      if 1 < cs.count ':' then .ok ⟨cs, true, defaultPort⟩
      else
        match splitAt? ':' cs with
        | none => .ok ⟨cs, false, defaultPort⟩
        | some ([], _) => .error (.noHost (String.ofList cs))
        | some (host, port) =>
          match uint16? port with
          | some port => .ok ⟨host, false, port⟩
          | none => .error (.port (String.ofList cs)) := by
  unfold parse
  split
  · exact absurd rfl hne
  · exact absurd rfl hbracket
  · rfl

theorem colon_notMem_of_spells {n : Nat} (h : Spells port n) : ':' ∉ port :=
  notMem_of_spells h (by decide) (by decide)

theorem parse_host (hne : host ≠ []) (hbracket : host.head? ≠ some '[') (hcolon : ':' ∉ host) :
    parse host = .ok ⟨host, false, defaultPort⟩ := by
  rw [parse_of_ne_bracket hne hbracket, List.count_eq_zero_of_not_mem hcolon, if_neg (by decide),
    splitAt?_eq_none hcolon]

theorem parse_hostPort (hne : host ≠ []) (hbracket : host.head? ≠ some '[') (hcolon : ':' ∉ host)
    (hspells : Spells port number.toNat) :
    parse (host ++ ':' :: port) = .ok ⟨host, false, number⟩ := by
  have hcount : (host ++ ':' :: port).count ':' = 1 := by
    rw [List.count_append, List.count_cons_self, List.count_eq_zero_of_not_mem hcolon,
      List.count_eq_zero_of_not_mem (colon_notMem_of_spells hspells)]
  have hhead : (host ++ ':' :: port).head? ≠ some '[' := by
    rwa [List.head?_append_of_ne_nil _ hne]
  rw [parse_of_ne_bracket (by simp) hhead, hcount, if_neg (by decide), splitAt?_append hcolon]
  cases host with
  | nil => exact absurd rfl hne
  | cons c host =>
    dsimp only
    rw [uint16?_eq_some_iff.2 hspells]

theorem parse_of_written (h : Written cs a) : parse cs = .ok a := by
  cases h with
  | host hne hbracket hcolon => exact parse_host hne hbracket hcolon
  | hostPort hne hbracket hcolon hspells => exact parse_hostPort hne hbracket hcolon hspells
  | bare hbracket hcolons =>
    have hne : cs ≠ [] := by
      rintro rfl
      exact absurd hcolons (by decide)
    rw [parse_of_ne_bracket hne hbracket, if_pos hcolons]
  | literal hne hbracket => rw [parse_of_bracket hbracket]; rfl
  | literalPort hne hbracket hspells =>
    rw [parse_of_bracket hbracket, bracketPort?, uint16?_eq_some_iff.2 hspells]

theorem written_or_irregular_of_bracket (hliteral : ']' ∉ literal)
    (hport : bracketPort? tail = some number) :
    Written ('[' :: (literal ++ ']' :: tail)) ⟨literal, true, number⟩ ∨
      Irregular ('[' :: (literal ++ ']' :: tail)) := by
  by_cases hempty : literal = []
  · exact .inr ⟨literal, tail, rfl, hliteral, .inl hempty⟩
  · cases tail with
    | nil =>
      obtain rfl := Option.some.inj hport
      exact .inl (.literal hempty hliteral)
    | cons c rest =>
      by_cases hcolon : c = ':'
      · subst hcolon
        exact .inl (.literalPort hempty hliteral (uint16?_eq_some_iff.1 hport))
      · exact .inr ⟨literal, c :: rest, rfl, hliteral, .inr ⟨c, rest, rfl, hcolon⟩⟩

theorem written_of_ne_bracket (hbracket : cs.head? ≠ some '[') (h : parse cs = .ok a) :
    Written cs a := by
  have hne : cs ≠ [] := by
    rintro rfl
    cases h
  rw [parse_of_ne_bracket hne hbracket] at h
  split at h
  · rename_i hcolons
    obtain rfl := Except.ok.inj h
    exact .bare hbracket hcolons
  · cases hsplit : splitAt? ':' cs with
    | none =>
      rw [hsplit] at h
      obtain rfl := Except.ok.inj h
      refine .host hne hbracket fun hcolon => ?_
      obtain ⟨front, rest, rfl, hfront⟩ := List.eq_append_cons_of_mem hcolon
      rw [splitAt?_append hfront] at hsplit
      cases hsplit
    | some found =>
      obtain ⟨host, port⟩ := found
      obtain ⟨rfl, hcolon⟩ := splitAt?_eq_some_iff.1 hsplit
      cases host with
      | nil =>
        rw [hsplit] at h
        cases h
      | cons c host =>
        rw [hsplit] at h
        dsimp only at h
        cases hport : uint16? port with
        | none =>
          rw [hport] at h
          cases h
        | some number =>
          rw [hport] at h
          obtain rfl := Except.ok.inj h
          exact .hostPort nofun hbracket hcolon (uint16?_eq_some_iff.1 hport)

theorem read_cases (h : parse cs = .ok a) :
    Written cs a ∨ Irregular cs ∧ a.bracketed ∧ ']' ∉ a.host := by
  by_cases hbracket : cs.head? = some '['
  · obtain ⟨rest, rfl⟩ := List.head?_eq_some_iff.1 hbracket
    cases hsplit : splitAt? ']' rest with
    | none => simp [parse, hsplit] at h
    | some found =>
      obtain ⟨literal, tail⟩ := found
      obtain ⟨rfl, hliteral⟩ := splitAt?_eq_some_iff.1 hsplit
      rw [parse_of_bracket hliteral] at h
      cases hport : bracketPort? tail with
      | none => simp [hport] at h
      | some number =>
        rw [hport] at h
        obtain rfl := Except.ok.inj h
        exact (written_or_irregular_of_bracket hliteral hport).imp_right (⟨·, rfl, hliteral⟩)
  · exact .inl (written_of_ne_bracket hbracket h)

theorem toList_toString (a : Address) : a.toString.toList = a.full := by
  have htext : ∀ s : String, ToString.toString s = s := fun _ => rfl
  unfold toString full
  dsimp only
  split <;> simp [htext, Text.toList_toString]

theorem parse_full_of_literal (h : ']' ∉ literal) (number : UInt16) :
    parse (full ⟨literal, true, number⟩) = .ok ⟨literal, true, number⟩ := by
  rw [full, if_pos rfl, parse_of_bracket h, bracketPort?, uint16?_toDigits]

theorem parse_full_of_host (hne : host ≠ []) (hbracket : host.head? ≠ some '[')
    (hcolon : ':' ∉ host) (number : UInt16) :
    parse (full ⟨host, false, number⟩) = .ok ⟨host, false, number⟩ := by
  rw [full, if_neg Bool.false_ne_true]
  exact parse_hostPort hne hbracket hcolon (.inl (digits_toDigits number.toNat))

theorem parse_full (h : parse cs = .ok a) (hcs : ¬BracketInBare cs) : parse a.full = .ok a := by
  rcases read_cases h with hwritten | ⟨-, hbracketed, hbracket⟩
  · cases hwritten with
    | host hne hbracket hcolon => exact parse_full_of_host hne hbracket hcolon _
    | hostPort hne hbracket hcolon => exact parse_full_of_host hne hbracket hcolon _
    | bare hbracket hcolons =>
      exact parse_full_of_literal (fun hmem => hcs ⟨hbracket, hcolons, hmem⟩) _
    | literal hne hbracket => exact parse_full_of_literal hbracket _
    | literalPort hne hbracket => exact parse_full_of_literal hbracket _
  · obtain ⟨host, bracketed, number⟩ := a
    obtain rfl : bracketed = true := hbracketed
    exact parse_full_of_literal hbracket number

theorem normalize_eq_ok_iff {text full : String} :
    normalize text = .ok full ↔ ∃ a, parse text.toList = .ok a ∧ full = a.toString := by
  unfold normalize
  cases parse text.toList with
  | error e => simp [Except.map]
  | ok a => simp [Except.map, eq_comm]

/-- Unless it is irregular, a text names a neighbour if and only if it is written as one, and then
its full form is that of this neighbour. Full forms are their own, except where a bare literal has a
closing bracket. -/
theorem normalize_iff_written (text : String) :
    (¬Irregular text.toList → ∀ full : String, normalize text = .ok full ↔
      ∃ a, Written text.toList a ∧ full.toList = a.full) ∧
    ∀ full, normalize text = .ok full → ¬BracketInBare text.toList →
      normalize full = .ok full := by
  constructor
  · intro hregular full
    rw [normalize_eq_ok_iff]
    constructor
    · rintro ⟨a, hread, rfl⟩
      refine ⟨a, ?_, a.toList_toString⟩
      exact (read_cases hread).resolve_right fun h => hregular h.1
    · rintro ⟨a, hwritten, hfull⟩
      refine ⟨a, parse_of_written hwritten, String.toList_injective ?_⟩
      rw [hfull, a.toList_toString]
  · intro full hfull hbare
    obtain ⟨a, hread, rfl⟩ := normalize_eq_ok_iff.1 hfull
    refine normalize_eq_ok_iff.2 ⟨a, ?_, rfl⟩
    rw [a.toList_toString]
    exact parse_full hread hbare

/-- The full form of a bare literal with a closing bracket cannot be read. -/
theorem full_form_unread :
    normalize "::]" = .ok "[::]]:9896" ∧
      normalize "[::]]:9896" = .error (.port "[::]]:9896") := by
  decide +kernel

theorem normalize_iff_written_small :
    ¬Irregular "[::1]:+80".toList ∧ Written "[::1]:+80".toList ⟨[':', ':', '1'], true, 80⟩ ∧
      normalize "[::1]:+80" = .ok "[::1]:80" ∧ normalize "[::1]:80" = .ok "[::1]:80" := by
  have htext : "[::1]:+80".toList = '[' :: ([':', ':', '1'] ++ ']' :: ':' :: ['+', '8', '0']) := by
    decide +kernel
  have hregular : ¬Irregular "[::1]:+80".toList := by
    rintro ⟨literal, tail, hsplit, hbracket, h⟩
    have hrest := (List.cons.inj (htext.symm.trans hsplit)).2
    have hfound := splitAt?_eq_some_iff.2 ⟨hrest, hbracket⟩
    rw [splitAt?_append (by decide)] at hfound
    obtain ⟨rfl, rfl⟩ := Prod.mk.inj (Option.some.inj hfound)
    rcases h with h | ⟨_, _, ⟨⟩, hcolon⟩
    · cases h
    · exact hcolon rfl
  have hwritten : Written "[::1]:+80".toList ⟨[':', ':', '1'], true, 80⟩ := by
    rw [htext]
    exact .literalPort nofun (by decide) (uint16?_eq_some_iff.1 (by decide))
  have hbare : ¬BracketInBare "[::1]:+80".toList := fun h => h.1 rfl
  obtain ⟨hforms, hagain⟩ := normalize_iff_written "[::1]:+80"
  have hfull : normalize "[::1]:+80" = .ok "[::1]:80" :=
    (hforms hregular _).2 ⟨_, hwritten, by decide +kernel⟩
  exact ⟨hregular, hwritten, hfull, hagain _ hfull hbare⟩

end Address
end NamedData
