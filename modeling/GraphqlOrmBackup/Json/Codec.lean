import GraphqlOrmBackup.Json.Bounds

/-!
# Typed documents

A codec writes the values of a type as JSON values and reads them back.  A
record is an object; its fields are read by name, in any order.  A codec also
says which values it can write: those whose numbers fit the types of the
program that is modelled.
-/

namespace Json

structure Codec (α : Type) where
  encode : α → Value
  decode : Value → Option α
  fits : α → Bool
  decode_encode : ∀ a, fits a = true → decode (encode a) = some a
  is64_encode : ∀ a, fits a = true → (encode a).is64 = true

/-- The fields of a record.  They are read through a function that finds the
    value of a name. -/
structure Fields (α : Type) where
  names : List String
  encode : α → List (String × Value)
  decode : (String → Option Value) → Option α
  fits : α → Bool
  names_encode : ∀ a, (encode a).map Prod.fst = names
  decode_encode : ∀ a find, fits a = true → (∀ field ∈ encode a, find field.1 = some field.2) →
    decode find = some a
  is64_encode : ∀ a, fits a = true → ∀ field ∈ encode a, field.2.is64 = true

namespace Codec

variable {α β : Type}

/-! ## Scalars -/

def string : Codec String where
  encode := .string
  decode
    | .string s => some s
    | _ => none
  fits _ := true
  decode_encode _ _ := rfl
  is64_encode _ _ := rfl

/-- The integers of a range that lies within those of 64 bits. -/
def int (low high : Int) (hlow : -2 ^ 63 ≤ low) (hhigh : high ≤ 2 ^ 64) : Codec Int where
  encode n := .number (.int n)
  decode
    | .number (.int n) => if low ≤ n ∧ n < high then some n else none
    | _ => none
  fits n := low ≤ n ∧ n < high
  decode_encode n h := if_pos (of_decide_eq_true h)
  is64_encode n h := by
    obtain ⟨hn, hn'⟩ := of_decide_eq_true h
    exact decide_eq_true ⟨Int.le_trans hlow hn, Int.lt_of_lt_of_le hn' hhigh⟩

/-- Another representation of a type. -/
def map (c : Codec α) (pack : α → Option β) (unpack : β → α)
    (h : ∀ b, pack (unpack b) = some b) : Codec β where
  encode b := c.encode (unpack b)
  decode v := (c.decode v).bind pack
  fits b := c.fits (unpack b)
  decode_encode b hb := by rw [c.decode_encode _ hb, Option.bind_some, h]
  is64_encode b hb := c.is64_encode _ hb

def i64 : Codec Int := int (-2 ^ 63) (2 ^ 63) (Int.le_refl _) (by decide)

/-- The natural numbers below a bound. -/
def nat (bound : Nat) (h : bound ≤ 2 ^ 64) : Codec Nat :=
  (int 0 bound (by decide) (by exact_mod_cast h)).map (fun n => some n.toNat) Int.ofNat
    fun n => congrArg some (Int.toNat_natCast n)

def u32 : Codec Nat := nat (2 ^ 32) (by decide)

def u64 : Codec Nat := nat (2 ^ 64) (Nat.le_refl _)

/-- An enumeration whose members are written as their names. -/
def enum [DecidableEq α] (members : List (α × String))
    (h : ∀ a, (members.lookup a).bind (fun name => (members.find? fun m => m.2 = name).map (·.1)) =
      some a) : Codec α where
  encode a := .string ((members.lookup a).getD "")
  decode
    | .string name => (members.find? fun m => m.2 = name).map (·.1)
    | _ => none
  fits _ := true
  decode_encode a _ := by
    rcases Option.bind_eq_some_iff.mp (h a) with ⟨name, hname, hfind⟩
    simp only [hname, Option.getD_some]
    exact hfind
  is64_encode _ _ := rfl

/-! ## Options and lists -/

/-- `null` stands for no value. -/
def option (c : Codec α) (h : ∀ a, c.encode a ≠ .null) : Codec (Option α) where
  encode a := (a.map c.encode).getD .null
  decode
    | .null => some none
    | v => (c.decode v).map some
  fits a := a.all c.fits
  decode_encode a ha := by
    cases a with
    | none => rfl
    | some a =>
      have hdecode := c.decode_encode a ha
      simp only [Option.map_some, Option.getD_some]
      cases henc : c.encode a with
      | null => exact absurd henc (h a)
      | _ => simp [← henc, hdecode]
  is64_encode a ha := by
    cases a with
    | none => rfl
    | some a => exact c.is64_encode a ha

def list (c : Codec α) : Codec (List α) where
  encode l := .array (l.map c.encode)
  decode
    | .array items => items.mapM c.decode
    | _ => none
  fits l := l.all c.fits
  decode_encode l hl := by
    induction l with
    | nil => rfl
    | cons a l ih =>
      rw [List.all_cons, Bool.and_eq_true] at hl
      simp only [List.map_cons, List.mapM_cons, c.decode_encode a hl.1, Option.bind_eq_bind,
        Option.bind_some]
      rw [show (l.map c.encode).mapM c.decode = some l from ih hl.2]
      rfl
  is64_encode l hl := by
    apply is64Items_iff.mpr
    intro item hitem
    rcases List.mem_map.mp hitem with ⟨a, ha, rfl⟩
    exact c.is64_encode a (List.all_eq_true.mp hl a ha)

end Codec

/-! ## Records -/

namespace Fields

variable {α β : Type}

def field (name : String) (c : Codec α) : Fields α where
  names := [name]
  encode a := [(name, c.encode a)]
  decode find := (find name).bind c.decode
  fits := c.fits
  names_encode _ := rfl
  decode_encode a find ha hfind := by
    rw [hfind (name, c.encode a) List.mem_cons_self]
    exact c.decode_encode a ha
  is64_encode a ha field hfield := by
    rw [List.mem_singleton.mp hfield]
    exact c.is64_encode a ha

/-- A field that may be left out. -/
def fieldOr (name : String) (c : Codec α) (default : α) : Fields α where
  names := [name]
  encode a := [(name, c.encode a)]
  decode find := (find name).elim (some default) c.decode
  fits := c.fits
  names_encode _ := rfl
  decode_encode a find ha hfind := by
    rw [hfind (name, c.encode a) List.mem_cons_self]
    exact c.decode_encode a ha
  is64_encode a ha field hfield := by
    rw [List.mem_singleton.mp hfield]
    exact c.is64_encode a ha

/-- The fields of two records one after the other. -/
def seq (f : Fields α) (g : Fields β) : Fields (α × β) where
  names := f.names ++ g.names
  encode p := f.encode p.1 ++ g.encode p.2
  decode find := (f.decode find).bind fun a => (g.decode find).map fun b => (a, b)
  fits p := f.fits p.1 && g.fits p.2
  names_encode p := by rw [List.map_append, f.names_encode, g.names_encode]
  decode_encode p find hp hfind := by
    rw [Bool.and_eq_true] at hp
    rw [List.forall_mem_append] at hfind
    rw [f.decode_encode _ _ hp.1 hfind.1, g.decode_encode _ _ hp.2 hfind.2]
    rfl
  is64_encode p hp := by
    rw [Bool.and_eq_true] at hp
    exact List.forall_mem_append.mpr ⟨f.is64_encode _ hp.1, g.is64_encode _ hp.2⟩

def map (f : Fields α) (pack : α → β) (unpack : β → α) (h : ∀ b, pack (unpack b) = b) :
    Fields β where
  names := f.names
  encode b := f.encode (unpack b)
  decode find := (f.decode find).map pack
  fits b := f.fits (unpack b)
  names_encode b := f.names_encode _
  decode_encode b find hb hfind := by rw [f.decode_encode _ _ hb hfind, Option.map_some, h]
  is64_encode b hb := f.is64_encode _ hb

end Fields

theorem lookup_of_mem {fields : List (String × Value)} (hnodup : (fields.map Prod.fst).Nodup)
    {field : String × Value} (h : field ∈ fields) : List.lookup field.1 fields = some field.2 := by
  induction fields with
  | nil => cases h
  | cons head fields ih =>
    rw [List.map_cons, List.nodup_cons] at hnodup
    rw [List.lookup_cons]
    rcases List.mem_cons.mp h with rfl | h
    · rw [beq_self_eq_true]
    · have hne : field.1 ≠ head.1 := fun heq => hnodup.1 (heq ▸ List.mem_map_of_mem h)
      rw [beq_false_of_ne hne]
      exact ih hnodup.2 h

theorem Fields.nodup_encode {α : Type} (f : Fields α) (hnames : f.names.Nodup) (a : α) :
    ((f.encode a).map Prod.fst).Nodup := by
  rw [f.names_encode]
  exact hnames

/-- An object with these fields, each at most once; other fields are ignored. -/
def Fields.record {α : Type} (f : Fields α) (hnames : f.names.Nodup) : Codec α where
  encode a := .object (f.encode a)
  decode
    | .object fields =>
        if ((fields.map Prod.fst).filter (· ∈ f.names)).Nodup then
          f.decode fun name => List.lookup name fields
        else none
    | _ => none
  fits := f.fits
  decode_encode a ha := by
    have hnodup := f.nodup_encode hnames a
    apply (if_pos (hnodup.filter _)).trans
    exact f.decode_encode a _ ha fun field hfield => lookup_of_mem hnodup hfield
  is64_encode a ha := is64Fields_iff.mpr (f.is64_encode a ha)

/-! ## What was read -/

/-- What is read from a field of an object. -/
theorem decode_field {α : Type} {c : Codec α} {name : String} {fields : List (String × Value)}
    {a : α} (h : (Fields.field name c).decode (fun name => List.lookup name fields) = some a) :
    ∃ value, List.lookup name fields = some value ∧ c.decode value = some a :=
  Option.bind_eq_some_iff.mp h

theorem decode_seq {α β : Type} {f : Fields α} {g : Fields β} {find : String → Option Value}
    {p : α × β} : (f.seq g).decode find = some p ↔
      f.decode find = some p.1 ∧ g.decode find = some p.2 := by
  rw [Fields.seq, Option.bind_eq_some_iff]
  simp only [Option.map_eq_some_iff]
  constructor
  · intro h
    rcases h with ⟨a, ha, b, hb, rfl⟩
    exact ⟨ha, hb⟩
  · intro h
    rcases h with ⟨ha, hb⟩
    exact ⟨p.1, ha, p.2, hb, rfl⟩

/-- A record is read from an object. -/
theorem decode_record {α : Type} {f : Fields α} {hnames : f.names.Nodup} {value : Value} {a : α}
    (h : (f.record hnames).decode value = some a) : ∃ fields, value = .object fields ∧
      f.decode (fun name => List.lookup name fields) = some a := by
  cases value with
  | object fields =>
    refine ⟨fields, rfl, ?_⟩
    change (if _ then _ else none) = some a at h
    split at h
    · exact h
    · cases h
  | _ => cases h

theorem decode_option {α : Type} {c : Codec α} {h : ∀ a, c.encode a ≠ .null} {value : Value} {a : α}
    (hvalue : (c.option h).decode value = some (some a)) : c.decode value = some a := by
  have hsome : ∀ {r : Option α}, r.map some = some (some a) → r = some a := by
    intro r hr
    rcases Option.map_eq_some_iff.mp hr with ⟨b, rfl, heq⟩
    exact heq
  cases value with
  | null => cases hvalue
  | bool b => exact hsome hvalue
  | number n => exact hsome hvalue
  | string s => exact hsome hvalue
  | array items => exact hsome hvalue
  | object fields => exact hsome hvalue

/-- What is read could have been written. -/
def Codec.Sound {α : Type} (c : Codec α) : Prop :=
  ∀ value a, c.decode value = some a → c.fits a = true

def Fields.Sound {α : Type} (f : Fields α) : Prop :=
  ∀ find a, f.decode find = some a → f.fits a = true

section

variable {α β : Type}

theorem Codec.sound_string : Codec.string.Sound := fun _ _ _ => rfl

theorem Codec.sound_int {low high : Int} (hlow : -2 ^ 63 ≤ low) (hhigh : high ≤ 2 ^ 64) :
    (Codec.int low high hlow hhigh).Sound := by
  intro value n h
  cases value with
  | number number =>
    cases number with
    | int m =>
      change (if low ≤ m ∧ m < high then some m else none) = some n at h
      split at h
      · next hrange =>
        rw [← Option.some.inj h]
        exact decide_eq_true hrange
      · cases h
    | float x => cases h
  | _ => cases h

theorem Codec.sound_nat {bound : Nat} (h : bound ≤ 2 ^ 64) : (Codec.nat bound h).Sound := by
  intro value n hvalue
  rcases Option.bind_eq_some_iff.mp hvalue with ⟨m, hm, heq⟩
  have hrange := of_decide_eq_true (Codec.sound_int _ _ value m hm)
  obtain rfl := Option.some.inj heq
  refine decide_eq_true ?_
  rw [Int.ofNat_eq_natCast, Int.toNat_of_nonneg hrange.1]
  exact hrange

theorem Codec.sound_enum [DecidableEq α] {members : List (α × String)}
    (h : ∀ a, (members.lookup a).bind (fun name => (members.find? fun m => m.2 = name).map (·.1)) =
      some a) : (Codec.enum members h).Sound := fun _ _ _ => rfl

theorem Codec.Sound.option {c : Codec α} (hc : c.Sound) (hne : ∀ a, c.encode a ≠ .null) :
    (c.option hne).Sound := by
  intro value o h
  cases o with
  | none => rfl
  | some a => exact hc value a (decode_option h)

theorem Codec.Sound.list {c : Codec α} (hc : c.Sound) : c.list.Sound := by
  intro value l h
  cases value with
  | array items =>
    change items.mapM c.decode = some l at h
    change l.all c.fits = true
    induction items generalizing l with
    | nil =>
      rw [← Option.some.inj h]
      rfl
    | cons item items ih =>
      simp only [List.mapM_cons, Option.bind_eq_bind, Option.bind_eq_some_iff] at h
      rcases h with ⟨a, ha, l', hl', heq⟩
      cases heq
      rw [List.all_cons, hc item a ha, ih l' hl']
      rfl
  | _ => cases h

theorem Codec.Sound.field {c : Codec α} (hc : c.Sound) (name : String) :
    (Fields.field name c).Sound := by
  intro find a h
  rcases Option.bind_eq_some_iff.mp h with ⟨value, -, hvalue⟩
  exact hc value a hvalue

theorem Codec.Sound.fieldOr {c : Codec α} (hc : c.Sound) (name : String) {default : α}
    (hdefault : c.fits default = true) : (Fields.fieldOr name c default).Sound := by
  intro find a h
  change (find name).elim (some default) c.decode = some a at h
  cases hvalue : find name with
  | none =>
    rw [hvalue] at h
    rw [← Option.some.inj h]
    exact hdefault
  | some value =>
    rw [hvalue] at h
    exact hc value a h

theorem Fields.Sound.seq {f : Fields α} {g : Fields β} (hf : f.Sound) (hg : g.Sound) :
    (f.seq g).Sound := by
  intro find p h
  rcases decode_seq.mp h with ⟨ha, hb⟩
  exact Bool.and_eq_true_iff.mpr ⟨hf find p.1 ha, hg find p.2 hb⟩

theorem Fields.Sound.map {f : Fields α} (hf : f.Sound) {pack : α → β} {unpack : β → α}
    (h : ∀ b, pack (unpack b) = b) (hunpack : ∀ a, unpack (pack a) = a) :
    (f.map pack unpack h).Sound := by
  intro find b hdecode
  rcases Option.map_eq_some_iff.mp hdecode with ⟨a, ha, rfl⟩
  change f.fits (unpack (pack a)) = true
  rw [hunpack]
  exact hf find a ha

theorem Fields.Sound.record {f : Fields α} (hf : f.Sound) (hnames : f.names.Nodup) :
    (f.record hnames).Sound := by
  intro value a h
  rcases decode_record h with ⟨fields, rfl, hfields⟩
  exact hf _ a hfields

end

/-! ## Flat documents -/

/-- The value nests `n` containers at most, and has no floats. -/
structure Value.Flat (n : Nat) (value : Value) : Prop where
  depth : value.depth ≤ n
  floats : value.floats = []

theorem Value.Flat.mono {m n : Nat} {value : Value} (h : value.Flat m) (hmn : m ≤ n) :
    value.Flat n := ⟨Nat.le_trans h.depth hmn, h.floats⟩

theorem Value.Flat.readsFloats {n : Nat} {value : Value} (h : value.Flat n) :
    value.ReadsFloats := by
  intro x hx
  rw [h.floats] at hx
  cases hx

theorem flat_array {n : Nat} {items : List Value} (h : ∀ value ∈ items, value.Flat n) :
    (Value.array items).Flat (n + 1) where
  depth := Nat.succ_le_succ (depthItems_le_iff.mpr fun value hmem => (h value hmem).depth)
  floats := by
    refine List.eq_nil_iff_forall_not_mem.mpr fun x hx => ?_
    rcases mem_floatsItems.mp hx with ⟨value, hmem, hx⟩
    rw [(h value hmem).floats] at hx
    cases hx

theorem flat_object {n : Nat} {fields : List (String × Value)}
    (h : ∀ field ∈ fields, field.2.Flat n) : (Value.object fields).Flat (n + 1) where
  depth := Nat.succ_le_succ (depthFields_le_iff.mpr fun field hmem => (h field hmem).depth)
  floats := by
    refine List.eq_nil_iff_forall_not_mem.mpr fun x hx => ?_
    rcases mem_floatsFields.mp hx with ⟨field, hmem, hx⟩
    rw [(h field hmem).floats] at hx
    cases hx

/-- The documents are flat. -/
def Codec.Flat {α : Type} (c : Codec α) (n : Nat) : Prop := ∀ a, (c.encode a).Flat n

def Fields.Flat {α : Type} (f : Fields α) (n : Nat) : Prop :=
  ∀ a, ∀ field ∈ f.encode a, field.2.Flat n

theorem depth_le_depthFields {fields : List (String × Value)} {name : String} {value : Value}
    (h : List.lookup name fields = some value) : value.depth ≤ depthFields fields := by
  obtain ⟨pre, rest, rfl, -⟩ := List.lookup_eq_some_iff.mp h
  exact depthFields_le_iff.mp (Nat.le_refl _) (name, value) (by simp)

section

variable {α β : Type} {n : Nat}

theorem Codec.Flat.mono {m : Nat} {c : Codec α} (h : c.Flat m) (hmn : m ≤ n) : c.Flat n :=
  fun a => (h a).mono hmn

theorem Codec.Flat.map {c : Codec α} (h : c.Flat n) {pack : α → Option β} {unpack : β → α}
    (hpack : ∀ b, pack (unpack b) = some b) : (c.map pack unpack hpack).Flat n := fun b =>
  h (unpack b)

theorem Codec.Flat.option {c : Codec α} (h : c.Flat n) (hne : ∀ a, c.encode a ≠ .null) :
    (c.option hne).Flat n := by
  intro a
  cases a with
  | none => exact ⟨Nat.zero_le n, rfl⟩
  | some a => exact h a

theorem Codec.Flat.list {c : Codec α} (h : c.Flat n) : c.list.Flat (n + 1) := by
  intro l
  refine flat_array fun value hvalue => ?_
  rcases List.mem_map.mp hvalue with ⟨a, _, rfl⟩
  exact h a

theorem Codec.Flat.field {c : Codec α} (h : c.Flat n) (name : String) :
    (Fields.field name c).Flat n := fun a field hfield => by
  rw [List.mem_singleton.mp hfield]
  exact h a

theorem Codec.Flat.fieldOr {c : Codec α} (h : c.Flat n) (name : String) (default : α) :
    (Fields.fieldOr name c default).Flat n := fun a field hfield => by
  rw [List.mem_singleton.mp hfield]
  exact h a

theorem Fields.Flat.seq {f : Fields α} {g : Fields β} (hf : f.Flat n) (hg : g.Flat n) :
    (f.seq g).Flat n := fun p => List.forall_mem_append.mpr ⟨hf p.1, hg p.2⟩

theorem Fields.Flat.map {f : Fields α} (hf : f.Flat n) {pack : α → β} {unpack : β → α}
    (h : ∀ b, pack (unpack b) = b) : (f.map pack unpack h).Flat n := fun b => hf (unpack b)

theorem Fields.Flat.record {f : Fields α} (hf : f.Flat n) (hnames : f.names.Nodup) :
    (f.record hnames).Flat (n + 1) := fun a => flat_object (hf a)

theorem Codec.flat_string : Codec.string.Flat 0 := fun _ => ⟨Nat.le_refl 0, rfl⟩

theorem Codec.flat_int {low high : Int} (hlow : -2 ^ 63 ≤ low) (hhigh : high ≤ 2 ^ 64) :
    (Codec.int low high hlow hhigh).Flat 0 := fun _ => ⟨Nat.le_refl 0, rfl⟩

theorem Codec.flat_nat {bound : Nat} (h : bound ≤ 2 ^ 64) : (Codec.nat bound h).Flat 0 :=
  (Codec.flat_int _ _).map _

theorem Codec.flat_enum [DecidableEq α] {members : List (α × String)}
    (h : ∀ a, (members.lookup a).bind (fun name => (members.find? fun m => m.2 = name).map (·.1)) =
      some a) : (Codec.enum members h).Flat 0 := fun _ => ⟨Nat.le_refl 0, rfl⟩

end

end Json
