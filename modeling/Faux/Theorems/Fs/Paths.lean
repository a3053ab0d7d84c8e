import Faux.Fs.NameSpace

/-! Paths: their components, and paths of one component. -/

namespace Faux
open Lib

/-! ### Components -/

theorem components_cons (c : Char) (cs : List Char) : components (c :: cs) =
    if c = '/' then "" :: components cs else (components cs).modifyHead fun n => String.ofList (c :: n.toList) := by
  unfold components List.splitOn
  rw [List.splitOnP_cons_eq_if_modifyHead]
  split_ifs with slash isSlash isSlash
  · rfl
  · exact absurd (beq_iff_eq.mp slash) isSlash
  · exact absurd (beq_iff_eq.mpr isSlash) slash
  · cases List.splitOnP (· == '/') cs with
    | nil => rfl
    | cons n ns => simp

theorem components_ne_nil (cs : List Char) : components cs ≠ [] := by
  simp [components, List.splitOn, List.splitOnP_ne_nil]

theorem components_slash (cs : List Char) : components ('/' :: cs) = "" :: components cs := by
  rw [components_cons, if_pos rfl]

theorem components_append_cons (front : List Char) (back : List Char) :
    components (front ++ '/' :: back) = components front ++ components back := by
  induction front with
  | nil => exact components_slash back
  | cons c front ih =>
    rw [List.cons_append, components_cons, components_cons, ih]
    split_ifs
    · rfl
    · cases isComponents : components front with
      | nil => exact absurd isComponents (components_ne_nil front)
      | cons n ns => rfl

theorem components_append_slash (cs : List Char) : components (cs ++ ['/']) = components cs ++ [""] := components_append_cons cs []

theorem components_of_noSlash {s : List Char} (noSlash : '/' ∉ s) : components s = [String.ofList s] := by
  have single : s.splitOn '/' = [s] := List.splitOnP_eq_singleton fun c mem => by
    simp only [beq_eq_false_iff_ne]
    rintro rfl
    exact noSlash mem
  rw [components, single]
  rfl

theorem getLast_components {cs : List Char} : (components cs).getLast? = some "" ↔ cs = [] ∨ cs.getLast? = some '/' := by
  constructor
  · induction cs with
    | nil => exact fun _ => .inl rfl
    | cons c cs ih =>
      intro last
      have later : cs.getLast? = some '/' → (c :: cs).getLast? = some '/' := fun ends => by
        obtain ⟨ds, rfl⟩ := List.getLast?_eq_some_iff.mp ends
        rw [← List.cons_append, List.getLast?_concat]
      rw [components_cons] at last
      split_ifs at last with slash
      · rw [List.getLast?_cons_of_ne_nil (components_ne_nil cs)] at last
        rcases ih last with rfl | ends
        · exact .inr (by rw [slash]; rfl)
        · exact .inr (later ends)
      · cases isComponents : components cs with
        | nil => exact absurd isComponents (components_ne_nil cs)
        | cons m ms =>
          rw [isComponents] at last ih
          cases ms with
          | nil =>
            have empty : String.ofList (c :: m.toList) = "" := Option.some.inj last
            exact absurd (String.ofList_eq_empty_iff.mp empty) (List.cons_ne_nil _ _)
          | cons k ks =>
            have last' : (m :: k :: ks).getLast? = some "" := last
            rcases ih last' with rfl | ends
            · cases isComponents
            · exact .inr (later ends)
  · rintro (rfl | ends)
    · rfl
    · obtain ⟨ds, rfl⟩ := List.getLast?_eq_some_iff.mp ends
      rw [components_append_slash, List.getLast?_concat]

namespace Component
variable {name : Name} (component : Component name)
include component

theorem components_eq : components name.toList = [name] := by
  rw [components_of_noSlash component.noSlash, String.ofList_toList]

theorem last_ne : name.toList.getLast? ≠ some '/' := fun last => component.noSlash (List.mem_of_getLast? last)

theorem head_ne : name.toList.head? ≠ some '/' := fun head => component.noSlash (List.mem_of_head? head)

theorem startDir_eq (parent : InodeType) : startDir parent name = parent := by
  rw [startDir, if_neg component.head_ne]

theorem splitParent_eq : splitParent name = ([], name) := by
  simp [splitParent, component.last_ne, component.components_eq]

theorem fosLookupParent_eq {cfg : Config} {parent : InodeType} {cached : Bool} (isDir : parent.type.isDir = true) :
    fosLookupParent cfg parent name cached =
      perform .check >>= fun _ => .ret ({ retval := .ok, inode := parent, cached }, name) := by
  simp only [fosLookupParent, component.nonempty, if_false, component.splitParent_eq, component.startDir_eq, List.map_nil,
    fosResolvePieces, Prog.ret_bind, isDir, if_true]

end Component
end Faux
