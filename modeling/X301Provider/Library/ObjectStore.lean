import Mathlib.Data.List.Basic
import Mathlib.Data.Nat.Basic

/-!
# Objects behind handles

A store hands out handles, never the same one twice, and forgets an object when
its handle is freed. A pointer is a handle or null; reading through null or
through a freed handle yields nothing, and writing there changes nothing.
-/

abbrev Handle := ℕ

/-- The objects by handle; a freed slot stays empty. -/
structure ObjectStore (α : Type) where
  slots : List (Option α)

namespace ObjectStore

variable {α : Type} {store : ObjectStore α} {handle other : Handle} {object : α} {p q : α → Prop}

def empty : ObjectStore α := ⟨[]⟩

def get (store : ObjectStore α) (handle : Handle) : Option α := store.slots[handle]?.join

def next (store : ObjectStore α) : Handle := store.slots.length

def insert (store : ObjectStore α) (object : α) : ObjectStore α := ⟨store.slots ++ [some object]⟩

def set (store : ObjectStore α) (handle : Handle) (object : α) : ObjectStore α :=
  ⟨store.slots.modify handle (Option.map fun _ => object)⟩

def free (store : ObjectStore α) (handle : Handle) : ObjectStore α :=
  ⟨store.slots.set handle none⟩

theorem lt_next (h : store.get handle = some object) : handle < store.next := by
  rw [get, Option.join_eq_some_iff] at h
  exact (List.getElem?_eq_some_iff.mp h).1

@[simp] theorem get_insert_next : (store.insert object).get store.next = some object := by
  rw [get, insert, next, List.getElem?_concat_length]
  rfl

theorem get_insert_of_ne (h : handle ≠ store.next) :
    (store.insert object).get handle = store.get handle := by
  rw [get, insert, get]
  cases Nat.lt_or_gt_of_ne h with
  | inl hLt =>
    rw [List.getElem?_append_left hLt]
  | inr hGt =>
    have hLength : (store.slots ++ [some object]).length = store.next + 1 := List.length_append
    rw [List.getElem?_eq_none (Nat.le_of_lt hGt),
      List.getElem?_eq_none (hLength ▸ hGt)]

theorem get_insert_of_some {new : α} (h : store.get handle = some object) :
    (store.insert new).get handle = some object :=
  (get_insert_of_ne (Nat.ne_of_lt (lt_next h))).trans h

@[simp] theorem get_set_self : (store.set handle object).get handle =
    (store.get handle).map fun _ => object := by
  rw [get, set, List.getElem?_modify_eq, get]
  rcases store.slots[handle]? with _ | _ | _
  · rfl
  · rfl
  · rfl

@[simp] theorem get_set_of_ne (h : other ≠ handle) :
    (store.set handle object).get other = store.get other := by
  rw [get, set, List.getElem?_modify_ne _ _ h.symm, get]

@[simp] theorem get_free_self : (store.free handle).get handle = none := by
  rw [get, free, List.getElem?_set_self']
  cases store.slots[handle]? with
  | none =>
    rfl
  | some _ =>
    rfl

@[simp] theorem get_free_of_ne (h : other ≠ handle) :
    (store.free handle).get other = store.get other := by
  rw [get, free, List.getElem?_set_ne h.symm, get]

theorem set_get (h : store.get handle = some object) : store.set handle object = store := by
  obtain ⟨slots⟩ := store
  rw [get, Option.join_eq_some_iff] at h
  have hLength := (List.getElem?_eq_some_iff.mp h).1
  rw [set, ObjectStore.mk.injEq]
  apply List.ext_getElem?
  intro i
  by_cases hi : handle = i
  · subst hi
    rw [List.getElem?_modify_eq, h]
    rfl
  · rw [List.getElem?_modify_ne _ _ hi]

@[simp] theorem next_set : (store.set handle object).next = store.next := List.length_modify ..

/-! ### Properties of every object -/

/-- Every live object has the property. -/
def All (p : α → Prop) (store : ObjectStore α) : Prop :=
  ∀ handle object, store.get handle = some object → p object

theorem all_empty : (empty : ObjectStore α).All p := by
  rintro handle object h
  cases h

theorem All.mono (h : store.All p) (hImp : ∀ object, p object → q object) : store.All q :=
  fun handle object hGet => hImp object (h handle object hGet)

theorem All.insert (h : store.All p) (hObject : p object) : (store.insert object).All p := by
  intro handle found hGet
  by_cases hNew : handle = store.next
  · rw [hNew, get_insert_next] at hGet
    obtain rfl := Option.some.inj hGet
    exact hObject
  · rw [get_insert_of_ne hNew] at hGet
    exact h handle found hGet

theorem All.set (h : store.All p) (hObject : p object) : (store.set handle object).All p := by
  intro position found hGet
  by_cases hSame : position = handle
  · rw [hSame, get_set_self] at hGet
    obtain ⟨old, -, rfl⟩ := Option.map_eq_some_iff.mp hGet
    exact hObject
  · rw [get_set_of_ne hSame] at hGet
    exact h position found hGet

theorem All.free (h : store.All p) : (store.free handle).All p := by
  intro position found hGet
  by_cases hSame : position = handle
  · rw [hSame, get_free_self] at hGet
    cases hGet
  · rw [get_free_of_ne hSame] at hGet
    exact h position found hGet

/-! ### Pointers -/

def deref (store : ObjectStore α) (pointer : Option Handle) : Option α := pointer.bind store.get

def write (store : ObjectStore α) : Option Handle → Option α → ObjectStore α
  | some handle, some object => store.set handle object
  | _, _ => store

@[simp] theorem deref_some : store.deref (some handle) = store.get handle := rfl

theorem write_deref (pointer : Option Handle) : store.write pointer (store.deref pointer) = store := by
  cases pointer with
  | none => rfl
  | some handle =>
    cases hGet : store.get handle with
    | none => rw [deref_some, hGet]; rfl
    | some object =>
      rw [deref_some, hGet]
      exact set_get hGet

theorem get_write_of_ne {pointer : Option Handle} (object : Option α)
    (h : pointer ≠ some handle) : (store.write pointer object).get handle = store.get handle := by
  cases pointer with
  | none =>
    rfl
  | some position =>
    cases object with
    | none =>
      rfl
    | some object =>
      exact get_set_of_ne fun hEq => h (congrArg some hEq.symm)

theorem get_write_some (object : α) : (store.write (some handle) (some object)).get handle =
    (store.get handle).map fun _ => object :=
  get_set_self

theorem All.deref {pointer : Option Handle} (h : store.All p)
    (hObject : store.deref pointer = some object) : p object := by
  cases pointer with
  | none => cases hObject
  | some handle => exact h handle object hObject

theorem All.write {pointer : Option Handle} {object : Option α} (h : store.All p)
    (hObject : ∀ new, object = some new → p new) : (store.write pointer object).All p := by
  cases pointer with
  | none =>
    exact h
  | some handle =>
    cases object with
    | none =>
      exact h
    | some object =>
      exact h.set (hObject object rfl)

/-- Keep the pointer of a fresh object if there is one. -/
def insertOption (store : ObjectStore α) : Option α → Option Handle × ObjectStore α
  | none => (none, store)
  | some object => (some store.next, store.insert object)

@[simp] theorem next_free : (store.free handle).next = store.next := List.length_set

@[simp] theorem next_write (pointer : Option Handle) (object : Option α) :
    (store.write pointer object).next = store.next := by
  cases pointer with
  | none =>
    rfl
  | some handle =>
    cases object with
    | none =>
      rfl
    | some object =>
      exact next_set

theorem next_le_insertOption (object : Option α) :
    store.next ≤ (store.insertOption object).2.next := by
  cases object with
  | none => exact Nat.le_refl _
  | some object =>
    rw [insertOption, next, insert, next, List.length_append]
    exact Nat.le_add_right _ _

theorem eq_next_of_insertOption {new : Option α} (h : (store.insertOption new).1 = some handle) :
    handle = store.next := by
  cases new with
  | none => cases h
  | some new => exact (Option.some.inj h).symm

theorem get_insertOption_of_some {new : Option α} (h : store.get handle = some object) :
    (store.insertOption new).2.get handle = some object := by
  cases new with
  | none => exact h
  | some new => exact get_insert_of_some h

theorem insertOption_of_none {new : Option α} (h : (store.insertOption new).1 = none) :
    (store.insertOption new).2 = store := by
  cases new with
  | none => rfl
  | some new => cases h

theorem All.insertOption {object : Option α} (h : store.All p)
    (hObject : ∀ new, object = some new → p new) : (store.insertOption object).2.All p := by
  cases object with
  | none => exact h
  | some object => exact h.insert (hObject object rfl)

end ObjectStore
