/-!
# The order of texts

Texts are ordered character by character. Things with a text are put in the
order of their texts; those with the same text stay in the order they had.
-/

namespace NamedData.Text

def sortOn {α : Type} (key : α → String) (items : List α) : List α :=
  ((items.map fun a => (key a, a)).mergeSort fun a b => a.1 ≤ b.1).map (·.2)

theorem sortOn_perm {α : Type} (key : α → String) (items : List α) :
    (sortOn key items).Perm items := by
  have h := (List.mergeSort_perm (items.map fun a => (key a, a))
    (fun a b => decide (a.1 ≤ b.1))).map Prod.snd
  simpa [sortOn, Function.comp_def] using h

end NamedData.Text
