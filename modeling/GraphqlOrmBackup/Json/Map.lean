import GraphqlOrmBackup.Json.Value
import Mathlib.Data.List.Basic

/-!
# Maps of JSON values

`serde_json` keeps the fields of an object by name, in the order of the names and
none twice.  So do the objects inside its values.  Names are ordered by their
characters, which orders them by their bytes.
-/

namespace Json

/-! ## Fields by name -/

section Fields

variable {β : Type}

/-- `BTreeMap::insert`: a field of that name is replaced. -/
def insertField (name : String) (value : β) : List (String × β) → List (String × β)
  | [] => [(name, value)]
  | field :: fields =>
      match compare name field.1 with
      | .lt => (name, value) :: field :: fields
      | .eq => (name, value) :: fields
      | .gt => field :: insertField name value fields

/-- The fields in turn: of a name that occurs twice, the last value stays. -/
def collectFields (fields : List (String × β)) : List (String × β) :=
  fields.foldl (fun collected field => insertField field.1 field.2 collected) []

/-- The names are in order, and none occurs twice. -/
abbrev Ascending (fields : List (String × β)) : Prop :=
  fields.Pairwise fun a b => compare a.1 b.1 = .lt

variable {name : String} {value : β} {fields : List (String × β)}

theorem ascending_iff_names :
    Ascending fields ↔ (fields.map (·.1)).Pairwise fun a b => compare a b = .lt := by
  rw [Ascending, List.pairwise_map]

theorem mem_insertField {field : String × β} (h : field ∈ insertField name value fields) :
    field = (name, value) ∨ field ∈ fields := by
  induction fields with
  | nil => exact Or.inl (List.mem_singleton.mp h)
  | cons head fields ih =>
    rw [insertField] at h
    cases hcompare : compare name head.1 with
    | lt =>
      rw [hcompare] at h
      exact List.mem_cons.mp h
    | eq =>
      rw [hcompare] at h
      exact (List.mem_cons.mp h).imp_right (List.mem_cons_of_mem _)
    | gt =>
      rw [hcompare] at h
      rcases List.mem_cons.mp h with rfl | h
      · exact Or.inr List.mem_cons_self
      · exact (ih h).imp_right (List.mem_cons_of_mem _)

theorem ascending_insertField (h : Ascending fields) : Ascending (insertField name value fields) := by
  induction fields with
  | nil => exact List.pairwise_singleton _ _
  | cons head fields ih =>
    obtain ⟨hhead, hfields⟩ := List.pairwise_cons.mp h
    rw [insertField]
    cases hcompare : compare name head.1 with
    | lt =>
      refine List.pairwise_cons.mpr ⟨fun field hmem => ?_, h⟩
      rcases List.mem_cons.mp hmem with rfl | hmem
      · exact hcompare
      · exact Std.TransCmp.lt_trans hcompare (hhead field hmem)
    | eq =>
      obtain rfl := Std.LawfulEqOrd.eq_of_compare hcompare
      exact List.pairwise_cons.mpr ⟨hhead, hfields⟩
    | gt =>
      refine List.pairwise_cons.mpr ⟨fun field hmem => ?_, ih hfields⟩
      rcases mem_insertField hmem with rfl | hmem
      · exact Std.OrientedCmp.lt_of_gt hcompare
      · exact hhead field hmem

/-- A field behind all others. -/
theorem insertField_of_gt (h : ∀ field ∈ fields, compare field.1 name = .lt) :
    insertField name value fields = fields ++ [(name, value)] := by
  induction fields with
  | nil => rfl
  | cons head fields ih =>
    obtain ⟨hhead, hfields⟩ := List.forall_mem_cons.mp h
    rw [insertField, Std.OrientedCmp.gt_of_lt hhead]
    exact congrArg (head :: ·) (ih hfields)

theorem mem_collectFields {field : String × β} (h : field ∈ collectFields fields) :
    field ∈ fields := by
  have hfold : ∀ collected : List (String × β),
      field ∈ fields.foldl (fun collected field => insertField field.1 field.2 collected) collected →
      field ∈ collected ∨ field ∈ fields := by
    clear h
    induction fields with
    | nil => exact fun _ h => Or.inl h
    | cons head fields ih =>
      intro collected h
      rcases ih _ h with h | h
      · rcases mem_insertField h with rfl | h
        · exact Or.inr List.mem_cons_self
        · exact Or.inl h
      · exact Or.inr (List.mem_cons_of_mem _ h)
  exact (hfold [] h).resolve_left List.not_mem_nil

theorem ascending_collectFields (fields : List (String × β)) : Ascending (collectFields fields) := by
  have hfold : ∀ collected : List (String × β), Ascending collected →
      Ascending (fields.foldl (fun collected field => insertField field.1 field.2 collected)
        collected) := by
    induction fields with
    | nil => exact fun _ h => h
    | cons head fields ih => exact fun _ h => ih _ (ascending_insertField h)
  exact hfold [] List.Pairwise.nil

/-- Fields in order are collected as they are. -/
theorem collectFields_eq (h : Ascending fields) : collectFields fields = fields := by
  have hfold : ∀ collected : List (String × β), Ascending (collected ++ fields) →
      fields.foldl (fun collected field => insertField field.1 field.2 collected) collected =
        collected ++ fields := by
    clear h
    induction fields with
    | nil => exact fun collected _ => (List.append_nil collected).symm
    | cons head fields ih =>
      intro collected h
      have hlast : ∀ field ∈ collected, compare field.1 head.1 = .lt := fun field hmem =>
        (List.pairwise_append.mp h).2.2 field hmem head List.mem_cons_self
      rw [List.foldl_cons, insertField_of_gt hlast, ih, List.append_assoc, List.singleton_append]
      rwa [List.append_assoc, List.singleton_append]
  exact hfold [] h

end Fields

/-! ## Values -/

mutual

/-- In every object of the document the fields are in order. -/
def Value.Ordered : Value → Prop
  | .array items => OrderedItems items
  | .object fields => Ascending fields ∧ OrderedFields fields
  | _ => True

def OrderedItems : List Value → Prop
  | [] => True
  | item :: items => item.Ordered ∧ OrderedItems items

def OrderedFields : List (String × Value) → Prop
  | [] => True
  | (_, value) :: fields => value.Ordered ∧ OrderedFields fields

end

mutual

/-- The document with the fields of its objects collected. -/
def Value.collect : Value → Value
  | .array items => .array (collectItems items)
  | .object fields => .object (collectFields (collectValues fields))
  | value => value

def collectItems : List Value → List Value
  | [] => []
  | item :: items => item.collect :: collectItems items

def collectValues : List (String × Value) → List (String × Value)
  | [] => []
  | (name, value) :: fields => (name, value.collect) :: collectValues fields

end

theorem orderedFields_iff {fields : List (String × Value)} :
    OrderedFields fields ↔ ∀ field ∈ fields, field.2.Ordered := by
  induction fields with
  | nil => simp [OrderedFields]
  | cons field fields ih => simp [OrderedFields, ih]

mutual

theorem Value.ordered_collect : ∀ value : Value, value.collect.Ordered
  | .null | .bool _ | .number _ | .string _ => trivial
  | .array items => orderedItems_collect items
  | .object fields =>
    ⟨ascending_collectFields _, orderedFields_iff.mpr fun field hmem =>
      orderedFields_iff.mp (orderedFields_collect fields) field (mem_collectFields hmem)⟩

theorem orderedItems_collect : ∀ items : List Value, OrderedItems (collectItems items)
  | [] => trivial
  | item :: items => ⟨item.ordered_collect, orderedItems_collect items⟩

theorem orderedFields_collect :
    ∀ fields : List (String × Value), OrderedFields (collectValues fields)
  | [] => trivial
  | (_, value) :: fields => ⟨value.ordered_collect, orderedFields_collect fields⟩

end

mutual

/-- A document in order is collected as it is. -/
theorem Value.collect_eq : ∀ value : Value, value.Ordered → value.collect = value
  | .null, _ | .bool _, _ | .number _, _ | .string _, _ => rfl
  | .array items, h => congrArg Value.array (collectItems_eq items h)
  | .object fields, h => by
    rw [Value.collect, collectValues_eq fields h.2, collectFields_eq h.1]

theorem collectItems_eq : ∀ items : List Value, OrderedItems items → collectItems items = items
  | [], _ => rfl
  | item :: items, h => by rw [collectItems, item.collect_eq h.1, collectItems_eq items h.2]

theorem collectValues_eq :
    ∀ fields : List (String × Value), OrderedFields fields → collectValues fields = fields
  | [], _ => rfl
  | (_, value) :: fields, h => by
    rw [collectValues, value.collect_eq h.1, collectValues_eq fields h.2]

end

/-- `serde_json::Value`. -/
structure SerdeValue where
  document : Value
  ordered : document.Ordered

/-- `serde_json::Map<String, Value>`. -/
structure Map where
  fields : List (String × SerdeValue)
  ascending : Ascending fields

/-- The value that `serde_json` reads from a document. -/
def SerdeValue.read (document : Value) : SerdeValue := ⟨document.collect, document.ordered_collect⟩

theorem SerdeValue.read_document (value : SerdeValue) : SerdeValue.read value.document = value := by
  cases value with
  | mk document ordered => rw [SerdeValue.read, SerdeValue.mk.injEq, document.collect_eq ordered]

namespace Map

/-- `Map::new`. -/
def empty : Map := ⟨[], List.Pairwise.nil⟩

/-- `Map::insert`. -/
def insert (map : Map) (name : String) (value : SerdeValue) : Map :=
  ⟨insertField name value map.fields, ascending_insertField map.ascending⟩

/-- The fields of the object that is written for the map. -/
def document (map : Map) : List (String × Value) :=
  map.fields.map fun field => (field.1, field.2.document)

/-- The map that `serde_json` reads from the fields of an object. -/
def read (fields : List (String × Value)) : Map :=
  ⟨collectFields (fields.map fun field => (field.1, SerdeValue.read field.2)),
    ascending_collectFields _⟩

theorem read_document (map : Map) : read map.document = map := by
  cases map with
  | mk fields ascending =>
    have hback : (document ⟨fields, ascending⟩).map
        (fun field => (field.1, SerdeValue.read field.2)) = fields := by
      simp [document, Function.comp_def, SerdeValue.read_document]
    rw [read, Map.mk.injEq, hback, collectFields_eq ascending]

/-- Fields that are in order are the map that is made of them. -/
theorem fields_foldl_insert {fields : List (String × SerdeValue)} (h : Ascending fields) :
    (fields.foldl (fun map field => map.insert field.1 field.2) empty).fields = fields := by
  have hfold : ∀ map : Map,
      (fields.foldl (fun map field => map.insert field.1 field.2) map).fields =
        fields.foldl (fun collected field => insertField field.1 field.2 collected) map.fields := by
    clear h
    induction fields with
    | nil => exact fun _ => rfl
    | cons field fields ih => exact fun map => ih (map.insert field.1 field.2)
  exact (hfold empty).trans (collectFields_eq h)

/-- What is read occurs in the document. -/
theorem mem_document_read {fields : List (String × Value)} {field : String × Value}
    (h : field ∈ (read fields).document) :
    ∃ value, (field.1, value) ∈ fields ∧ field.2 = value.collect := by
  obtain ⟨entry, hentry, rfl⟩ := List.mem_map.mp h
  obtain ⟨⟨name, value⟩, hmem, rfl⟩ := List.mem_map.mp (mem_collectFields hentry)
  exact ⟨value, hmem, rfl⟩

example : (read [("b", .null), ("a", .bool true), ("b", .bool false)]).document =
    [("a", .bool true), ("b", .bool false)] := rfl

end Map

end Json
