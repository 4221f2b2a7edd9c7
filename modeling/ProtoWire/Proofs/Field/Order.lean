import Mathlib
import ProtoWire.Field.Order

/-!
# Arranging fields

* `FieldOrder.arrange_perm`: every order arranges the same entries.
* `FieldOrder.arrange_map`: entries are arranged by number alone.
-/

namespace ProtoWire

variable {α β : Type}

theorem insertByNumber_perm (number : α → UInt32) (entry : α) (entries : List α) :
    (insertByNumber number entry entries).Perm (entry :: entries) := by
  induction entries with
  | nil => exact .refl _
  | cons head rest ih =>
    rw [insertByNumber]
    split
    · exact .refl _
    · exact (ih.cons head).trans (.swap entry head rest)

theorem sortByNumber_perm (number : α → UInt32) (entries : List α) :
    (sortByNumber number entries).Perm entries := by
  have hfold : ∀ sorted : List α,
      (entries.foldl (fun sorted entry => insertByNumber number entry sorted) sorted).Perm
        (sorted ++ entries) := by
    induction entries with
    | nil => intro sorted; simp
    | cons entry entries ih =>
      intro sorted
      refine (ih _).trans (((insertByNumber_perm number entry sorted).append_right entries).trans ?_)
      exact List.perm_middle.symm
  exact hfold []

theorem FieldOrder.arrange_perm (order : FieldOrder) (number : α → UInt32) (entries : List α) :
    (order.arrange number entries).Perm entries := by
  cases order with
  | declaration | unordered => exact .refl _
  | ascending => exact sortByNumber_perm number entries

theorem insertByNumber_map (number : β → UInt32) (f : α → β) (entry : α) (entries : List α) :
    insertByNumber number (f entry) (entries.map f) =
      (insertByNumber (fun a => number (f a)) entry entries).map f := by
  induction entries with
  | nil => rfl
  | cons head rest ih =>
    rw [List.map_cons, insertByNumber, insertByNumber, ih]
    split <;> rfl

theorem sortByNumber_map (number : β → UInt32) (f : α → β) (entries : List α) :
    sortByNumber number (entries.map f) =
      (sortByNumber (fun a => number (f a)) entries).map f := by
  have hfold : ∀ sorted : List α,
      (entries.map f).foldl (fun sorted entry => insertByNumber number entry sorted)
          (sorted.map f) =
        (entries.foldl (fun sorted entry => insertByNumber (fun a => number (f a)) entry sorted)
          sorted).map f := by
    induction entries with
    | nil => intro sorted; rfl
    | cons entry entries ih =>
      intro sorted
      rw [List.map_cons, List.foldl_cons, List.foldl_cons, insertByNumber_map, ih]
  exact hfold []

theorem FieldOrder.arrange_map (order : FieldOrder) (number : β → UInt32) (f : α → β)
    (entries : List α) :
    order.arrange number (entries.map f) =
      (order.arrange (fun a => number (f a)) entries).map f := by
  cases order with
  | declaration | unordered => rfl
  | ascending => exact sortByNumber_map number f entries

end ProtoWire
