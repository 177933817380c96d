/-!
# Lists of pairs and sizes

`runs` groups neighbouring pairs with the same key: it reads a map of lists back from the list of
its pairs. `total` adds up sizes.
-/
namespace NestedWords

/-- Collects the values of neighbouring pairs with the same key. -/
def runs {κ α : Type} [DecidableEq κ] : List (κ × α) → List (κ × List α)
  | [] => []
  | (k, a) :: rest =>
    match runs rest with
    | [] => [(k, [a])]
    | (k', as) :: more => if k = k' then (k, a :: as) :: more else (k, [a]) :: (k', as) :: more

/-- The sizes of all elements together. -/
def total {α : Type} (size : α → Nat) : List α → Nat
  | [] => 0
  | a :: as => size a + total size as

end NestedWords
