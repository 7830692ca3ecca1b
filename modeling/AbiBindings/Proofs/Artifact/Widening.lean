import AbiBindings.Proofs.Artifact.Shape

/-!
Documents with fields that loading does not know. Such fields may be added to every object that is
read by its keys, at any depth and with any value. What is found under a known key stays there and
is only wider, so whatever fits a shape goes on to fit it.
-/

namespace AbiBindings.Artifact

def vocabulary : List Text :=
  ["contractName", "abi", "bytecode", "networks", "type", "name", "inputs", "outputs",
   "stateMutability", "constant", "payable", "anonymous", "indexed", "internalType", "components",
   "object", "address"]

/-- What a value is, by the place where it stands. A value is `plain` if it is read as a whole, and
`foreign` if it is not read at all. -/
inductive Role where
  | document
  | entries
  | entry
  | params
  | param
  | bytecode
  | networks
  | network
  | plain
  | foreign
deriving DecidableEq

namespace Role

/-- The role of a value under a key that has no meaning of its own. -/
def other (key : Text) : Role := if vocabulary.contains key then plain else foreign

def under : Role → Text → Role
  | document, key =>
    if key = "abi" then entries
    else if key = "bytecode" then bytecode
    else if key = "networks" then networks
    else other key
  | entry, key => if key = "inputs" ∨ key = "outputs" then params else other key
  | param, key => if key = "components" then params else other key
  | bytecode, key | network, key => other key
  | networks, _ => network
  | foreign, _ => foreign
  | entries, _ | params, _ | plain, _ => plain

/-- The role of the items of a list; a document may be a list of entries alone. -/
def items : Role → Role
  | document | entries => entry
  | params => param
  | foreign => foreign
  | _ => plain

/-- Whether an object in the role is read by its keys or not at all, so that it may have more. -/
def isRecord : Role → Bool
  | document | entry | param | bytecode | network | foreign => true
  | _ => false

end Role

mutual

/-- The second value is the first with fields added to objects that are read by their keys. The new
keys are outside the vocabulary. -/
inductive Widens : Role → Json → Json → Prop
  | same {role : Role} {value : Json} : Widens role value value
  | items {role : Role} {items items' : List Json} : WidensItems role.items items items' →
      Widens role (.arr items) (.arr items')
  | fields {role : Role} {fields fields' : List (Text × Json)} : WidensFields role fields fields' →
      Widens role (.obj fields) (.obj fields')

/-- Every item of the second list is wider than the one in its place in the first. -/
inductive WidensItems : Role → List Json → List Json → Prop
  | nil {role : Role} : WidensItems role [] []
  | cons {role : Role} {item item' : Json} {rest rest' : List Json} : Widens role item item' →
      WidensItems role rest rest' → WidensItems role (item :: rest) (item' :: rest')

inductive WidensFields : Role → List (Text × Json) → List (Text × Json) → Prop
  | nil {role : Role} : WidensFields role [] []
  | kept {role : Role} {key : Text} {value value' : Json} {rest rest' : List (Text × Json)} :
      Widens (role.under key) value value' → WidensFields role rest rest' →
      WidensFields role ((key, value) :: rest) ((key, value') :: rest')
  | added {role : Role} {key : Text} {value : Json} {rest rest' : List (Text × Json)} :
      role.isRecord = true → key ∉ vocabulary → WidensFields role rest rest' →
      WidensFields role rest ((key, value) :: rest')

end

mutual

/-- What is read as a whole is not widened. -/
theorem Widens.eq_of_plain {value value' : Json} {role : Role} (hrole : role = .plain) :
    Widens role value value' → value' = value
  | .same => rfl
  | .items hitems => by rw [WidensItems.eq_of_plain (by rw [hrole]; rfl) hitems]
  | .fields hfields => by rw [WidensFields.eq_of_plain hrole hfields]
termination_by structural h => h

theorem WidensItems.eq_of_plain {items items' : List Json} {role : Role} (hrole : role = .plain) :
    WidensItems role items items' → items' = items
  | .nil => rfl
  | .cons hitem hrest => by
    rw [Widens.eq_of_plain hrole hitem, WidensItems.eq_of_plain hrole hrest]
termination_by structural h => h

theorem WidensFields.eq_of_plain {fields fields' : List (Text × Json)} {role : Role}
    (hrole : role = .plain) : WidensFields role fields fields' → fields' = fields
  | .nil => rfl
  | .kept hvalue hrest => by
    rw [Widens.eq_of_plain (by rw [hrole]; rfl) hvalue, WidensFields.eq_of_plain hrole hrest]
  | .added hrecord _ _ => by
    rw [hrole] at hrecord
    cases hrecord
termination_by structural h => h

end

inductive FindsWider (role : Role) : Option Json → Option Json → Prop
  | nothing : FindsWider role none none
  | value {value value' : Json} : Widens role value value' →
      FindsWider role (some value) (some value')

theorem WidensFields.lookup {role : Role} {fields fields' : List (Text × Json)}
    (h : WidensFields role fields fields') {key : Text} (hkey : key ∈ vocabulary) :
    FindsWider (role.under key) (Json.lookup fields key) (Json.lookup fields' key) := by
  -- by induction on the wider fields: each is one of the others, or new and not what is looked up
  induction fields' generalizing fields with
  | nil =>
    cases h
    exact .nothing
  | cons field rest' ih =>
    cases h with
    | @kept _ k _ _ rest _ hvalue hrest =>
      rw [Json.lookup, Json.lookup]
      by_cases hk : k = key
      · rw [if_pos hk, if_pos hk, ← hk]
        exact .value hvalue
      · rw [if_neg hk, if_neg hk]
        exact ih hrest
    | @added _ k value _ _ _ hnew hrest =>
      have hne : k ≠ key := by
        rintro rfl
        exact hnew hkey
      rw [Json.lookup.eq_def ((k, value) :: rest')]
      dsimp only
      rw [if_neg hne]
      exact ih hrest

section

variable {role : Role} {value value' : Json}

/-- What stands under a known key of an object stands there in a wider one, and is wider itself. -/
theorem Widens.field (h : Widens role value value') (key : Text) (hkey : key ∈ vocabulary) :
    FindsWider (role.under key) (value.field? key) (value'.field? key) := by
  cases h with
  | same =>
    cases value.field? key with
    | none => exact .nothing
    | some part => exact .value .same
  | items _ => exact .nothing
  | fields hfields => exact hfields.lookup hkey

theorem FindsWider.eq_of_plain {found found' : Option Json} (h : FindsWider .plain found found') :
    found' = found := by
  cases h with
  | nothing => rfl
  | value hvalue => rw [hvalue.eq_of_plain rfl]

theorem FindsWider.isSome_eq {found found' : Option Json} (h : FindsWider role found found') :
    found'.isSome = found.isSome := by
  cases h with
  | nothing => rfl
  | value _ => rfl

/-- What is read as a whole under a known key is the same in a wider value. -/
theorem Widens.field_of_plain (h : Widens role value value') (key : Text)
    (hkey : key ∈ vocabulary ∧ role.under key = .plain) :
    value'.field? key = value.field? key := by
  have hfield := h.field key hkey.1
  rw [hkey.2] at hfield
  exact hfield.eq_of_plain

theorem Widens.admits_eq (h : Widens role value value') (kind : Kind) :
    kind.admits value' = kind.admits value := by
  cases h with
  | same => rfl
  | items _ => cases kind <;> rfl
  | fields _ => cases kind <;> rfl

end

theorem WidensItems.exists_item {role : Role} {items items' : List Json} {item' : Json}
    (h : WidensItems role items items') (hmem : item' ∈ items') :
    ∃ item ∈ items, Widens role item item' := by
  induction items generalizing items' with
  | nil =>
    cases h
    exact absurd hmem List.not_mem_nil
  | cons item rest ih =>
    cases h with
    | cons hitem hrest =>
      rcases List.mem_cons.mp hmem with rfl | hmem
      · exact ⟨item, List.mem_cons_self, hitem⟩
      · obtain ⟨found, hfound, hwider⟩ := ih hrest hmem
        exact ⟨found, List.mem_cons_of_mem _ hfound, hwider⟩

/-- If the value fits the shape, so does everything that widens it in the role. -/
def Keeps (role : Role) (shape : Shape) (value : Json) : Prop :=
  ∀ value', Widens role value value' → Fits value shape → Fits value' shape

/-- If the rule holds of the value, it holds of everything that widens it in the role. -/
def KeepsRule (role : Role) (rule : Rule ItemShape) (value : Json) : Prop :=
  ∀ value', Widens role value value' → rule.Holds Shape.ofItem value →
    rule.Holds Shape.ofItem value'

section

variable {role : Role} {shape : Shape} {value : Json}

theorem keeps_mk {kind : Option Kind} {rules : List (Rule ItemShape)}
    (h : ∀ rule ∈ rules, KeepsRule role rule value) : Keeps role (.mk kind rules) value := by
  intro value' hwider hfits
  obtain ⟨hkind, hrules⟩ := Json.follows_mk.mp hfits
  refine Json.follows_mk.mpr ⟨fun k hk => ?_, fun rule hrule => ?_⟩
  · rw [hwider.admits_eq, hkind k hk]
  · exact h rule hrule value' hwider (hrules rule hrule)

theorem keeps_plain (hrole : role = .plain) : Keeps role shape value := by
  intro value' hwider hfits
  rw [hwider.eq_of_plain hrole]
  exact hfits

theorem keepsRule_required {key : Text} (hkey : key ∈ vocabulary) :
    KeepsRule role (.required key) value := by
  intro value' hwider hholds fields' heq
  cases hwider with
  | same => exact hholds fields' heq
  | items _ => cases heq
  | @fields _ fields _ hfields =>
    obtain rfl := Json.obj.inj heq
    rw [(hfields.lookup hkey).isSome_eq]
    exact hholds fields rfl

theorem keepsRule_property {key : Text} (hkey : key ∈ vocabulary)
    (h : ∀ part, value.field? key = some part → Keeps (role.under key) shape part) :
    KeepsRule role (.property key shape) value := by
  intro value' hwider hholds part' hpart'
  have hfield := hwider.field key hkey
  rw [hpart'] at hfield
  generalize hpart : value.field? key = found at hfield
  cases hfield with
  | value hvalue => exact h _ hpart part' hvalue (hholds _ hpart)

theorem keepsRule_plain {key : Text} (hkey : key ∈ vocabulary ∧ role.under key = .plain) :
    KeepsRule role (.property key shape) value :=
  keepsRule_property hkey.1 fun _ _ => keeps_plain hkey.2

theorem keeps_anyOf {alternatives : List Shape}
    (h : ∀ shape ∈ alternatives, Keeps role shape value) :
    Keeps role (.mk none [.anyOf alternatives]) value := by
  intro value' hwider hfits
  obtain ⟨shape, hshape, hfits⟩ := fits_anyOf.mp hfits
  exact fits_anyOf.mpr ⟨shape, hshape, h shape hshape value' hwider hfits⟩

theorem keeps_listOf {name : ItemShape}
    (h : ∀ items, value = .arr items → ∀ item ∈ items, Keeps role.items (Shape.ofItem name) item) :
    Keeps role (Shape.listOf name) value := by
  intro value' hwider hfits
  obtain ⟨items, rfl, hitems⟩ := fits_listOf.mp hfits
  cases hwider with
  | same => exact hfits
  | @items _ _ items' hwider =>
    refine fits_listOf.mpr ⟨items', rfl, fun item' hmem => ?_⟩
    obtain ⟨item, hitem, hwider⟩ := hwider.exists_item hmem
    exact h items rfl item hitem item' hwider (hitems item hitem)

theorem keeps_textOrField (key : Text) (hkey : key ∈ vocabulary ∧ role.under key = .plain)
    {shape : Shape} (hshape : shape ∈ Shape.textOrField key) : Keeps role shape value := by
  rw [Shape.textOrField, List.mem_pair] at hshape
  rcases hshape with rfl | rfl
  · exact keeps_mk (by simp)
  · apply keeps_mk
    intro rule hrule
    rcases List.mem_pair.mp hrule with rfl | rfl
    · exact keepsRule_required hkey.1
    · exact keepsRule_plain hkey

end

/-- A parameter keeps its shape if a list of components in it does. -/
theorem keepsRule_param {value : Json}
    (h : ∀ part, value.field? "components" = some part →
      Keeps .params (Shape.listOf .param) part) :
    ∀ rule ∈ Shape.paramRules, KeepsRule .param rule value := by
  simp only [Shape.paramRules, List.forall_mem_cons]
  refine ⟨keepsRule_required (by decide), ?_, ?_, ?_, ?_, by simp⟩
  · exact keepsRule_plain (by decide)
  · exact keepsRule_plain (by decide)
  · exact keepsRule_plain (by decide)
  · exact keepsRule_property (by decide) h

/-- Parameters and lists of them keep their shapes. -/
theorem keeps_param (value : Json) :
    Keeps .param (Shape.ofItem .param) value ∧ Keeps .params (Shape.listOf .param) value := by
  -- a parameter has a list of components and the list has parameters, so each needs the other
  induction value using Json.induct with
  | arr items ih =>
    constructor
    · exact keeps_mk (keepsRule_param fun part hpart => by cases hpart)
    · refine keeps_listOf fun items' heq item hmem => ?_
      obtain rfl := Json.arr.inj heq
      exact (ih item hmem).1
  | obj fields ih =>
    constructor
    · exact keeps_mk (keepsRule_param fun part hpart => (ih _ (Json.mem_of_lookup hpart)).2)
    · exact keeps_listOf fun items heq => by cases heq
  | _ =>
    constructor
    · exact keeps_mk (keepsRule_param fun part hpart => by cases hpart)
    · exact keeps_listOf fun items heq => by cases heq

theorem keeps_object {role : Role} (value : Json) : Keeps role (Shape.ofItem .object) value :=
  keeps_mk (by simp)

theorem keeps_item (name : ItemShape) (value : Json) :
    Keeps .param (Shape.ofItem name) value := by
  cases name with
  | object => exact keeps_object value
  | param => exact (keeps_param value).1
  | eventParam =>
    refine keeps_mk (List.forall_mem_append.mpr ⟨?_, ?_⟩)
    · exact keepsRule_param fun part _ => (keeps_param part).2
    · simp only [List.forall_mem_singleton]
      exact keepsRule_plain (by decide)

theorem keepsRule_params {role : Role} {name : ItemShape} {value : Json} {key : Text}
    (hkey : key ∈ vocabulary ∧ role.under key = .params) :
    KeepsRule role (.property key (Shape.listOf name)) value := by
  refine keepsRule_property hkey.1 fun part _ => ?_
  rw [hkey.2]
  exact keeps_listOf fun items _ item _ => keeps_item name item

/-- An entry keeps the shape of every kind. -/
theorem keeps_entry (kind : EntryKind) (value : Json) :
    Keeps .entry (Shape.ofEntry kind) value := by
  have hrequired : KeepsRule .entry (.required "name") value := keepsRule_required (by decide)
  cases kind with
  | function =>
    apply keeps_mk
    simp only [List.forall_mem_cons]
    exact ⟨hrequired, keepsRule_plain (by decide), keepsRule_params (by decide),
      keepsRule_params (by decide), keepsRule_plain (by decide),
      keepsRule_plain (by decide), keepsRule_plain (by decide), by simp⟩
  | constructor =>
    apply keeps_mk
    simp only [List.forall_mem_cons]
    exact ⟨keepsRule_params (by decide), keepsRule_plain (by decide),
      keepsRule_plain (by decide), by simp⟩
  | event =>
    apply keeps_mk
    simp only [List.forall_mem_cons]
    exact ⟨hrequired, keepsRule_plain (by decide), keepsRule_params (by decide),
      keepsRule_plain (by decide), by simp⟩
  | error =>
    apply keeps_mk
    simp only [List.forall_mem_cons]
    exact ⟨hrequired, keepsRule_plain (by decide), keepsRule_params (by decide),
      by simp⟩
  | fallback =>
    apply keeps_mk
    simp only [List.forall_mem_cons]
    exact ⟨keepsRule_plain (by decide), keepsRule_plain (by decide), by simp⟩
  | receive =>
    apply keeps_mk
    simp only [List.forall_mem_cons]
    exact ⟨keepsRule_plain (by decide), by simp⟩

/-- Every network of a wider document is wider than one of the document. -/
theorem WidensFields.exists_network {fields fields' : List (Text × Json)}
    (h : WidensFields .networks fields fields') {field' : Text × Json} (hmem : field' ∈ fields') :
    ∃ field ∈ fields, Widens .network field.2 field'.2 := by
  induction fields' generalizing fields with
  | nil => exact absurd hmem List.not_mem_nil
  | cons first rest' ih =>
    cases h with
    | @kept _ key value _ rest _ hvalue hrest =>
      rcases List.mem_cons.mp hmem with rfl | hmem
      · exact ⟨(key, value), List.mem_cons_self, hvalue⟩
      · obtain ⟨found, hfound, hwider⟩ := ih hrest hmem
        exact ⟨found, List.mem_cons_of_mem _ hfound, hwider⟩
    | added hrecord _ _ => cases hrecord

theorem keepsRule_networks {shape : Shape} {value : Json}
    (h : ∀ network, Keeps .network shape network) :
    KeepsRule .networks (.values shape) value := by
  intro value' hwider hholds fields' heq field' hmem
  subst heq
  cases hwider with
  | same => exact hholds fields' rfl field' hmem
  | @fields _ fields _ hfields =>
    obtain ⟨field, hfield, hwider⟩ := hfields.exists_network hmem
    exact h field.2 field'.2 hwider (hholds fields rfl field hfield)

theorem keeps_document (value : Json) : Keeps .document Shape.document value := by
  apply keeps_mk
  simp only [List.forall_mem_cons]
  refine ⟨keepsRule_required (by decide), keepsRule_plain (by decide), ?_, ?_, ?_, by simp⟩
  · refine keepsRule_property (by decide) fun part _ => ?_
    exact keeps_listOf fun items _ item _ => keeps_object item
  · refine keepsRule_property (by decide) fun part _ => keeps_anyOf ?_
    rw [List.forall_mem_cons]
    exact ⟨keeps_mk (by simp), fun shape hshape =>
      keeps_textOrField "object" (by decide) hshape⟩
  · refine keepsRule_property (by decide) fun part _ => keeps_mk ?_
    rw [List.forall_mem_singleton]
    refine keepsRule_networks fun network => keeps_anyOf fun shape hshape => ?_
    exact keeps_textOrField "address" (by decide) hshape

end AbiBindings.Artifact
