import ClickHouse.Lexing
import Mathlib.Data.List.Induction

/-!
# Parsing what the types print

`ParseTypeName` of the name of a type is the tree of the type.  A run of the
parser over the tokens of one type only changes the element it started at, and
what it does to that element is a function of the element.
-/

namespace ClickHouse

open Kit List TypeParser EnumType TypeAst

/-! ## The path of last children -/

theorem updateLast_append {α : Type} (f : α → α) (l : List α) (a : α) :
    updateLast f (l ++ [a]) = l ++ [f a] := by
  induction l with
  | nil => rfl
  | cons b l ih =>
    cases l with
    | nil => rfl
    | cons c l => exact congrArg (b :: ·) ih

theorem updateLast_updateLast {α : Type} (f g : α → α) (l : List α) :
    updateLast g (updateLast f l) = updateLast (g ∘ f) l := by
  rcases eq_nil_or_concat l with rfl | ⟨l, a, rfl⟩
  · rfl
  · rw [concat_eq_append, updateLast_append, updateLast_append, updateLast_append,
      Function.comp_apply]

/-- The element with more elements. -/
def TypeAst.appendElements (elements : List TypeAst) (ast : TypeAst) : TypeAst :=
  { ast with elements := ast.elements ++ elements }

theorem TypeAst.updateSpine_updateSpine (depth : Nat) (f g : TypeAst → TypeAst) (ast : TypeAst) :
    (ast.updateSpine depth f).updateSpine depth g = ast.updateSpine depth (g ∘ f) := by
  induction depth generalizing ast with
  | zero => rfl
  | succ depth ih =>
    have child : updateSpine depth g ∘ updateSpine depth f = updateSpine depth (g ∘ f) := funext ih
    simp only [updateSpine, updateLast_updateLast, child]

/-- A new element that is changed at once. -/
theorem TypeAst.updateSpine_addElement (depth : Nat) (f : TypeAst → TypeAst) (ast : TypeAst) :
    (ast.updateSpine depth .addElement).updateSpine (depth + 1) f =
      ast.updateSpine depth (.appendElements [f .blank]) := by
  induction depth generalizing ast with
  | zero => simp only [updateSpine, addElement, appendElements,
      updateLast_append]
  | succ depth ih =>
    have child : updateSpine (depth + 1) f ∘ updateSpine depth addElement =
        updateSpine depth (appendElements [f blank]) := funext ih
    rw [updateSpine, updateSpine]
    simp only [updateLast_updateLast, child]
    rfl

/-! ## Tokens that change the current element -/

/-- Over the tokens, the parser changes the current element by `f` and nothing else. -/
def Fills (tokens : List Token) (f : TypeAst → TypeAst) : Prop :=
  ∀ rest processed s, parseTokens (tokens ++ rest) processed s =
    parseTokens rest (processed + tokens.length) (s.update f)

/-- Over the tokens, the parser adds elements to the one it is in: the first is there and blank
before them, the last is the current one after them. -/
def FillsElements (tokens : List Token) (elements : List TypeAst) : Prop :=
  ∀ rest processed root depth stack,
    parseTokens (tokens ++ rest) processed
        ⟨updateSpine depth .addElement root, depth + 1, depth :: stack⟩ =
      parseTokens rest (processed + tokens.length)
        ⟨updateSpine depth (.appendElements elements) root, depth + 1, depth :: stack⟩

variable {token : Token} {f : TypeAst → TypeAst} {tokens : List Token} {elements : List TypeAst}
    {text name : Bytes}

theorem TypeParser.parseTokens_cons (notEos : token ≠ .eos) (valid : token ≠ .invalid)
    (rest : List Token) (processed : Nat) :
    parseTokens (token :: rest) processed = (do
      step token
      parseTokens rest (processed + 1)) := by
  cases token with
  | eos => exact absurd rfl notEos
  | invalid => exact absurd rfl valid
  | _ => rfl

/-- A token whose step only changes the state. -/
theorem TypeParser.parseTokens_of_step {s s' : TypeParser}
    (step : step token s = .ok () s') (notEos : token ≠ .eos)
    (valid : token ≠ .invalid) (rest : List Token) (processed : Nat) :
    parseTokens (token :: rest) processed s =
      parseTokens rest (processed + 1) s' := by
  rw [parseTokens_cons notEos valid]
  show EStateM.bind _ _ s = _
  rw [EStateM.bind, step]

theorem TypeParser.update_update (f g : TypeAst → TypeAst) (s : TypeParser) :
    (s.update f).update g = s.update (g ∘ f) := by
  simp only [update, updateSpine_updateSpine]

theorem Fills.append {tokens' : List Token} {g : TypeAst → TypeAst} (fills : Fills tokens f)
    (fills' : Fills tokens' g) : Fills (tokens ++ tokens') (g ∘ f) := by
  intro rest processed s
  rw [append_assoc, fills, fills', length_append, Nat.add_assoc,
    update_update]

/-- A token that only changes the current element. -/
theorem Fills.of_step (notEos : token ≠ .eos) (valid : token ≠ .invalid)
    (step : ∀ s, step token s = .ok () (s.update f)) : Fills [token] f := by
  intro rest processed s
  exact parseTokens_of_step (step s) notEos valid rest processed

theorem fills_name (name : Bytes) : Fills [.name name] (.setName name) :=
  .of_step nofun nofun fun _ => rfl

theorem fills_quotedIdentifier (name : Bytes) :
    Fills [.quotedIdentifier name] (.setName name) :=
  .of_step nofun nofun fun _ => rfl

def TypeAst.setNumber (value : Int) (ast : TypeAst) : TypeAst :=
  { ast with metaKind := .number, value := value }

def TypeAst.setString (value : Bytes) (ast : TypeAst) : TypeAst :=
  { ast with metaKind := .terminal, valueString := value, code := .string }

theorem fills_number {value : Int} (low : -2 ^ 63 ≤ value) (high : value < 2 ^ 63) :
    Fills [.number (toDecimalInt value)] (.setNumber value) := by
  refine .of_step nofun nofun ?_
  intro s
  rw [step, stol_toDecimalInt low high]
  exact congrArg (EStateM.Result.ok ()) (update_update _ _ s)

theorem fills_quotedString (text : Bytes) :
    Fills [.quotedString (0x27 :: text ++ [0x27])] (.setString text) := by
  refine .of_step nofun nofun ?_
  intro s
  obtain ⟨c, rest, tail⟩ : ∃ c rest, text ++ [0x27] = c :: rest :=
    exists_cons_of_ne_nil (append_ne_nil_of_right_ne_nil _ (cons_ne_nil _ _))
  have inner : (c :: rest).dropLast = text := tail ▸ dropLast_concat
  rw [cons_append, tail, step]
  simp only [inner]
  refine congrArg (EStateM.Result.ok ()) ?_
  rw [update_update, update_update]
  rfl

/-! ## Parenthesised elements -/

theorem Fills.element (fills : Fills tokens f) : FillsElements tokens [f .blank] := by
  intro rest processed root depth stack
  rw [fills, update, updateSpine_addElement]

/-- Lists of elements with a separator between them. -/
theorem FillsElements.append {tokens' : List Token} {separator : Token} {elements' : List TypeAst}
    (fills : FillsElements tokens elements) (separates : separator = .comma ∨ separator = .assign)
    (fills' : FillsElements tokens' elements') :
    FillsElements (tokens ++ separator :: tokens') (elements ++ elements') := by
  intro rest processed root depth stack
  have both : root.updateSpine depth (.appendElements (elements ++ elements')) =
      (root.updateSpine depth (.appendElements elements)).updateSpine depth
        (.appendElements elements') := by
    rw [updateSpine_updateSpine]
    congr 1
    funext ast
    simp [appendElements]
  have step : step separator
      ⟨root.updateSpine depth (.appendElements elements), depth + 1, depth :: stack⟩ =
      .ok () ⟨(root.updateSpine depth (.appendElements elements)).updateSpine depth .addElement,
        depth + 1, depth :: stack⟩ := by
    rcases separates with rfl | rfl <;> rfl
  have notEos : separator ≠ .eos := by rcases separates with rfl | rfl <;> nofun
  have valid : separator ≠ .invalid := by rcases separates with rfl | rfl <;> nofun
  rw [append_assoc, fills, cons_append,
    parseTokens_of_step step notEos valid, fills', ← both, length_append,
    length_cons]
  congr 1
  omega

theorem FillsElements.parenthesised (fills : FillsElements tokens elements) :
    Fills (.lpar :: tokens ++ [.rpar]) (.appendElements elements) := by
  intro rest processed s
  have opened : step .lpar s = .ok ()
      ⟨s.root.updateSpine s.current .addElement, s.current + 1, s.current :: s.openElements⟩ := rfl
  have closed : step .rpar ⟨s.root.updateSpine s.current (.appendElements elements),
      s.current + 1, s.current :: s.openElements⟩ =
      .ok () (s.update (.appendElements elements)) := rfl
  rw [append_assoc, cons_append, parseTokens_of_step opened nofun nofun,
    fills, singleton_append, parseTokens_of_step closed nofun nofun,
    length_append, length_cons]
  congr 1
  simp only [length_singleton]
  omega

/-! ## Texts -/

/-- The text of a type: the parser changes the current element by `f`. -/
def Reads (text : Bytes) (f : TypeAst → TypeAst) : Prop :=
  ∃ tokens, tokens ≠ [] ∧ Fills tokens f ∧
    ∀ rest, Delimits rest → tokenize (text ++ rest) = tokens ++ tokenize rest

/-- The text of elements between parentheses. -/
def ReadsElements (text : Bytes) (elements : List TypeAst) : Prop :=
  ∃ tokens, FillsElements tokens elements ∧
    ∀ rest, rest ≠ [] → Delimits rest → tokenize (text ++ rest) = tokens ++ tokenize rest

theorem Reads.element (reads : Reads text f) : ReadsElements text [f .blank] := by
  obtain ⟨tokens, _, fills, scans⟩ := reads
  exact ⟨tokens, fills.element, fun rest _ delimits => scans rest delimits⟩

def TypeAst.ofNumber (value : Int) : TypeAst := blank.setNumber value

def TypeAst.ofString (value : Bytes) : TypeAst := blank.setString value

theorem readsElements_number (value : Int) (low : -2 ^ 63 ≤ value) (high : value < 2 ^ 63) :
    ReadsElements (toDecimalInt value) [.ofNumber value] :=
  ⟨_, (fills_number low high).element, fun _ _ delimits => tokenize_toDecimalInt value delimits⟩

theorem readsElements_quoted (text : Bytes) :
    ReadsElements (0x27 :: escapeStringLiteral text ++ [0x27]) [.ofString text] := by
  refine ⟨_, (fills_quotedString text).element, ?_⟩
  intro rest more _
  rw [append_assoc]
  exact tokenize_quoted text more

/-- A text that is one separator to the lexer. -/
structure Separates (separator : Bytes) (token : Token) : Prop where
  separates : token = .comma ∨ token = .assign
  tokenize : ∀ rest, tokenize (separator ++ rest) = token :: tokenize rest
  delimits : ∀ rest, Delimits (separator ++ rest)
  nonempty : separator ≠ []

theorem separates_commaSpace : Separates (ascii ", ") .comma where
  separates := .inl rfl
  tokenize rest := (tokenize_comma _).trans (congrArg _ (tokenize_space rest))
  delimits _ := delimits_cons rfl _
  nonempty := cons_ne_nil _ _

theorem separates_comma : Separates (ascii ",") .comma where
  separates := .inl rfl
  tokenize := tokenize_comma
  delimits _ := delimits_cons rfl _
  nonempty := cons_ne_nil _ _

theorem separates_assign : Separates (ascii " = ") .assign where
  separates := .inr rfl
  tokenize rest :=
    (tokenize_space _).trans ((tokenize_assign _).trans (congrArg _ (tokenize_space rest)))
  delimits _ := delimits_cons rfl _
  nonempty := cons_ne_nil _ _

theorem ReadsElements.append {text' separator : Bytes} {elements' : List TypeAst}
    (reads : ReadsElements text elements) (separates : Separates separator token)
    (reads' : ReadsElements text' elements') :
    ReadsElements (text ++ separator ++ text') (elements ++ elements') := by
  obtain ⟨tokens, fills, scans⟩ := reads
  obtain ⟨tokens', fills', scans'⟩ := reads'
  refine ⟨_, fills.append separates.separates fills', ?_⟩
  intro rest more delimits
  rw [append_assoc, append_assoc,
    scans _ (append_ne_nil_of_left_ne_nil separates.nonempty _) (separates.delimits _),
    separates.tokenize, scans' rest more delimits, append_assoc, cons_append]

/-- What a type name with elements does to an element. -/
def TypeAst.call (name : Bytes) (elements : List TypeAst) (ast : TypeAst) : TypeAst :=
  (ast.setName name).appendElements elements

theorem reads_plain (plain : isPlainIdentifier name) : Reads name (.call name []) := by
  refine ⟨[.name name], cons_ne_nil _ _, ?_, fun rest delimits => tokenize_name plain delimits⟩
  have same : call name [] = .setName name := by
    funext ast
    simp only [call, appendElements, setName, append_nil]
  rw [same]
  exact fills_name name

/-- A name with elements in parentheses after it. -/
theorem ReadsElements.call (plain : isPlainIdentifier name) (reads : ReadsElements text elements) :
    Reads (name ++ 0x28 :: text ++ [0x29]) (.call name elements) := by
  obtain ⟨tokens, fills, scans⟩ := reads
  refine ⟨_, cons_ne_nil _ _, (fills_name name).append fills.parenthesised, ?_⟩
  intro rest delimits
  rw [append_assoc, append_assoc, cons_append,
    tokenize_name plain (delimits_cons rfl _), tokenize_lpar, singleton_append,
    scans _ (cons_ne_nil _ _) (delimits_cons rfl rest), tokenize_rpar]
  simp

/-- A field of a named tuple. -/
theorem Reads.field (lexes : LexesBack name) (reads : Reads text f) :
    ReadsElements (fieldname name ++ ascii " " ++ text) [f (blank.setName name)] := by
  obtain ⟨tokens, _, fills, scans⟩ := reads
  have blank (rest : Bytes) : fieldname name ++ ascii " " ++ text ++ rest =
      fieldname name ++ 0x20 :: (text ++ rest) := by
    rw [append_assoc, append_assoc]
    rfl
  obtain ⟨token, identifier, next⟩ := lexes.nextToken_append
  have names : Fills [token] (.setName name) := by
    rcases identifier with rfl | rfl
    · exact fills_name name
    · exact fills_quotedIdentifier name
  refine ⟨_, (names.append fills).element, ?_⟩
  intro rest _ delimits
  have first : tokenize (fieldname name ++ 0x20 :: (text ++ rest)) =
      token :: tokenize (0x20 :: (text ++ rest)) := by
    rcases identifier with rfl | rfl <;> exact tokenize_of_nextToken (next _) nofun nofun
  rw [blank, first, tokenize_space, scans rest delimits]
  rfl

theorem readsElements_joinComma {texts : List Bytes} {elements : List (List TypeAst)}
    (reads : Forall₂ ReadsElements texts elements) (nonempty : texts ≠ []) :
    ReadsElements (joinComma texts) elements.flatten := by
  induction reads with
  | nil => exact absurd rfl nonempty
  | cons first others ih =>
    cases others with
    | nil => simpa [joinComma] using first
    | cons second others =>
      rw [joinComma, flatten_cons]
      exact first.append separates_commaSpace (ih (cons_ne_nil _ _))

/-! ## The trees of types -/

/-- An element for each label and one for its value. -/
def EnumType.arguments (type : EnumType) : List TypeAst :=
  (type.valueToName.entries.map fun entry =>
    [ofString entry.2, ofNumber entry.1]).flatten

def FixedType.arguments : FixedType → List TypeAst
  | .dateTime timezone => if timezone.isEmpty then [] else [.ofString timezone]
  | .dateTime64 precision timezone =>
    .ofNumber precision.val :: if timezone.isEmpty then [] else [.ofString timezone]
  | .time64 precision => [.ofNumber precision.val]
  | .decimal precision scale => [.ofNumber precision, .ofNumber scale]
  | .enum8 type => type.arguments
  | .enum16 type => type.arguments
  | _ => []

def LeafType.arguments : LeafType → List TypeAst
  | .fixed type => type.arguments
  | .fixedString size => [.ofNumber size]
  | _ => []

mutual

def Ty.arguments : Ty → List TypeAst
  | .leaf type => type.arguments
  | .geo _ => []
  | .array item => [.call (ascii item.code.typeName) item.arguments .blank]
  | .nullable nested => [.call (ascii nested.code.typeName) nested.arguments .blank]
  | .tuple items names => Ty.fields names items
  | .lowCardinality nested => [.call (ascii nested.code.typeName) nested.arguments .blank]
  | .map key value =>
    [.call (ascii key.code.typeName) key.arguments .blank,
      .call (ascii value.code.typeName) value.arguments .blank]

def Ty.fields : List Bytes → List Ty → List TypeAst
  | _, [] => []
  | [], item :: items =>
    .call (ascii item.code.typeName) item.arguments .blank :: Ty.fields [] items
  | name :: names, item :: items =>
    .call (ascii item.code.typeName) item.arguments (blank.setName name) ::
      Ty.fields names items

end

/-- What the name of the type does to an element. -/
def Ty.fill (type : Ty) : TypeAst → TypeAst := .call (ascii type.code.typeName) type.arguments

/-- The tree of the type. -/
def Ty.ast (type : Ty) : TypeAst := type.fill .blank

/-! ## Types with a name that is read back -/

/-- Made from items with distinct labels and distinct values of the given width. -/
def EnumType.Proper (bound : Int) (type : EnumType) : Prop :=
  ∃ items : List EnumItem, items ≠ [] ∧ (items.map Prod.fst).Nodup ∧ (items.map Prod.snd).Nodup ∧
    (∀ item ∈ items, -bound ≤ item.2 ∧ item.2 < bound) ∧ type = .ofItems items

/-- The parameters fit `int64_t` and enums are proper. -/
def FixedType.Proper : FixedType → Prop
  | .decimal precision scale => precision < 2 ^ 63 ∧ scale < 2 ^ 63
  | .enum8 type => type.Proper (2 ^ 7)
  | .enum16 type => type.Proper (2 ^ 15)
  | _ => True

def LeafType.Proper : LeafType → Prop
  | .fixed type => type.Proper
  | .fixedString size => 0 < size ∧ size < 2 ^ 63
  | _ => True

mutual

/-- Tuples have fields, with no names or with a name each that is lexed back, and dictionaries are
of a supported type or nullable over one. -/
def Ty.Proper : Ty → Prop
  | .leaf type => type.Proper
  | .geo _ => True
  | .array item => item.Proper
  | .nullable nested => nested.Proper
  | .tuple items names =>
    items ≠ [] ∧ (names = [] ∨ names.length = items.length) ∧
      (∀ name ∈ names, name ≠ [] ∧ LexesBack name) ∧ Ty.AllProper items
  | .lowCardinality (.leaf type) => type.Proper ∧ type.isDictionary
  | .lowCardinality (.nullable (.leaf type)) => type.Proper ∧ type.isDictionary
  | .lowCardinality _ => False
  | .map key value => key.Proper ∧ value.Proper

def Ty.AllProper : List Ty → Prop
  | [] => True
  | item :: items => item.Proper ∧ Ty.AllProper items

end

/-! ## The names of the codes -/

/-- What `GetTypeMeta` makes of the name of a type. -/
def Code.metaKind : Code → Meta
  | .array => .array
  | .nullable => .nullable
  | .tuple => .tuple
  | .enum8 | .enum16 => .enum
  | .lowCardinality => .lowCardinality
  | .map => .map
  | _ => .terminal

/-- The table of type codes holds every code under its name, and no name twice. -/
theorem typeCodeTable_all : ∀ entry ∈ typeCodeTable, getTypeCode (ascii entry.1) = entry.2 ∧
    getTypeMeta (ascii entry.1) = entry.2.metaKind ∧ isPlainIdentifier (ascii entry.1) = true := by
  decide +kernel

theorem mem_typeCodeTable (code : Code) : (code.typeName, code) ∈ typeCodeTable := by
  cases code <;> decide

theorem getTypeCode_typeName (code : Code) : getTypeCode (ascii code.typeName) = code :=
  (typeCodeTable_all _ (mem_typeCodeTable code)).1

theorem getTypeMeta_typeName (code : Code) : getTypeMeta (ascii code.typeName) = code.metaKind :=
  (typeCodeTable_all _ (mem_typeCodeTable code)).2.1

theorem isPlainIdentifier_typeName (code : Code) : isPlainIdentifier (ascii code.typeName) :=
  (typeCodeTable_all _ (mem_typeCodeTable code)).2.2

/-- A type name with its elements in parentheses. -/
theorem ReadsElements.typeName {head : String} (reads : ReadsElements text elements) (code : Code)
    (opens : ascii head = ascii code.typeName ++ [0x28]) :
    Reads (ascii head ++ text ++ ascii ")") (.call (ascii code.typeName) elements) := by
  have called := reads.call (isPlainIdentifier_typeName code)
  rw [opens, append_assoc (ascii _), singleton_append]
  exact called

theorem reads_typeName (code : Code) : Reads (ascii code.typeName) (.call (ascii code.typeName) []) :=
  reads_plain (isPlainIdentifier_typeName code)

/-! ## The names of types -/

theorem readsElements_toDecimal {n : Nat} (fits : n < 2 ^ 63) :
    ReadsElements (toDecimal n) [.ofNumber n] :=
  readsElements_number (n : Int) (by omega) (by omega)

theorem readsElements_enumEntry {entry : Int × Bytes} (low : -2 ^ 15 ≤ entry.1)
    (high : entry.1 < 2 ^ 15) :
    ReadsElements (enumEntryName entry) [.ofString entry.2, .ofNumber entry.1] := by
  have reads := (readsElements_quoted entry.2).append separates_assign
    (readsElements_number entry.1 (by omega) (by omega))
  have same : enumEntryName entry = 0x27 :: escapeStringLiteral entry.2 ++ [0x27] ++ ascii " = " ++
      toDecimalInt entry.1 := by
    simp only [enumEntryName, append_assoc]
    rfl
  rw [same]
  exact reads

/-- The entries of an enum that was made from distinct items. -/
theorem EnumType.mem_ofItems {items : List EnumItem} (labels : (items.map Prod.fst).Nodup)
    (values : (items.map Prod.snd).Nodup) :
    (∀ value label, (value, label) ∈ (ofItems items).valueToName.entries ↔
      (label, value) ∈ items) ∧
    (∀ label value, (label, value) ∈ (ofItems items).nameToValue.entries ↔
      (label, value) ∈ items) := by
  induction items using reverseRecOn with
  | nil => simp [ofItems, OrdMap.empty]
  | append_singleton items item ih =>
    rw [map_append, map_singleton, nodup_append_comm, singleton_append,
      nodup_cons] at labels values
    obtain ⟨newLabel, labels⟩ := labels
    obtain ⟨newValue, values⟩ := values
    obtain ⟨toName, toValue⟩ := ih labels values
    have added : ofItems (items ++ [item]) = (ofItems items).addItem item :=
      foldl_append
    rw [added]
    constructor
    · intro value label
      rw [addItem, OrdMap.mem_assign, toName, mem_append, mem_singleton]
      constructor
      · rintro (same | ⟨mem, _⟩)
        · cases same
          exact .inr rfl
        · exact .inl mem
      · rintro (mem | same)
        · refine .inr ⟨mem, ?_⟩
          rintro rfl
          exact newValue (mem_map.mpr ⟨_, mem, rfl⟩)
        · cases same
          exact .inl rfl
    · intro label value
      have absent : ∀ other, (item.1, other) ∉ (ofItems items).nameToValue.entries := by
        intro other mem
        exact newLabel (mem_map.mpr ⟨_, (toValue _ _).mp mem, rfl⟩)
      rw [addItem, OrdMap.mem_insert_of_absent absent, toValue, mem_append,
        mem_singleton, or_comm]

/-- The enum with the items it prints is the same enum. -/
theorem EnumType.ofItems_entries {items : List EnumItem} (labels : (items.map Prod.fst).Nodup)
    (values : (items.map Prod.snd).Nodup) :
    ofItems ((ofItems items).valueToName.entries.map Prod.swap) =
      ofItems items := by
  obtain ⟨toName, toValue⟩ := mem_ofItems labels values
  let printed := (ofItems items).valueToName.entries.map Prod.swap
  have mem (label : Bytes) (value : Int) : (label, value) ∈ printed ↔ (label, value) ∈ items := by
    rw [← toName]
    constructor
    · intro isPrinted
      obtain ⟨entry, isEntry, same⟩ := mem_map.mp isPrinted
      cases same
      exact isEntry
    · intro mem
      exact mem_map_of_mem mem
  have perm : printed.Perm items :=
    (perm_ext_iff_of_nodup ((OrdMap.nodup_entries _).map Prod.swap_injective)
      labels.of_map).mpr fun item => mem item.1 item.2
  obtain ⟨toName', toValue'⟩ := mem_ofItems ((perm.map Prod.fst).nodup_iff.mpr labels)
    ((perm.map Prod.snd).nodup_iff.mpr values)
  have names : (ofItems printed).valueToName = (ofItems items).valueToName :=
    OrdMap.ext_mem fun entry => by rw [toName', mem, toName]
  have numbers : (ofItems printed).nameToValue = (ofItems items).nameToValue :=
    OrdMap.ext_mem fun entry => by rw [toValue', mem, toValue]
  show ofItems printed = _
  cases lhs : ofItems printed with
  | mk toName toValue =>
    rw [lhs] at names numbers
    subst names numbers
    rfl

theorem EnumType.Proper.reads {bound : Int} {type : EnumType} (proper : type.Proper bound)
    (small : bound ≤ 2 ^ 15) :
    ReadsElements (joinComma (type.valueToName.entries.map enumEntryName)) type.arguments := by
  obtain ⟨items, nonempty, labels, values, fits, rfl⟩ := proper
  obtain ⟨entries, _⟩ := mem_ofItems labels values
  refine readsElements_joinComma ?_ ?_
  · rw [forall₂_map_left_iff, forall₂_map_right_iff, forall₂_same]
    intro entry mem
    have range := fits _ ((entries entry.1 entry.2).mp mem)
    exact readsElements_enumEntry (by omega) (by omega)
  · obtain ⟨item, mem⟩ := exists_mem_of_ne_nil items nonempty
    have entry := (entries item.2 item.1).mpr mem
    exact ne_nil_of_mem (mem_map_of_mem entry)

theorem FixedType.Proper.reads {type : FixedType} (proper : type.Proper) :
    Reads type.getName (.call (ascii type.code.typeName) type.arguments) := by
  cases type with
  | dateTime timezone =>
    rw [FixedType.getName, FixedType.arguments]
    split
    · rw [append_nil]
      exact reads_typeName .dateTime
    · have text : ascii "DateTime" ++ (ascii "('" ++ escapeStringLiteral timezone ++ ascii "')") =
          ascii "DateTime(" ++ (0x27 :: escapeStringLiteral timezone ++ [0x27]) ++ ascii ")" := by
        simp only [append_assoc]
        rfl
      rw [text]
      exact (readsElements_quoted timezone).typeName .dateTime (by decide)
  | dateTime64 precision timezone =>
    have number : ReadsElements (toDecimal precision) [.ofNumber (precision : Nat)] :=
      readsElements_toDecimal (by omega)
    rw [FixedType.getName, FixedType.arguments]
    split
    · rw [append_nil]
      exact number.typeName .dateTime64 (by decide)
    · have text : ascii ", '" ++ escapeStringLiteral timezone ++ ascii "'" =
          ascii ", " ++ (0x27 :: escapeStringLiteral timezone ++ [0x27]) := by
        simp only [append_assoc]
        rfl
      rw [text, append_assoc (ascii "DateTime64("), ← append_assoc (toDecimal _)]
      exact (number.append separates_commaSpace (readsElements_quoted timezone)).typeName
        .dateTime64 (by decide)
  | time64 precision => exact (readsElements_toDecimal (by omega)).typeName .time64 (by decide)
  | decimal precision scale =>
    have reads := (readsElements_toDecimal proper.1).append separates_comma
      (readsElements_toDecimal proper.2)
    rw [FixedType.getName, append_assoc (ascii "Decimal("), append_assoc (ascii "Decimal(")]
    exact reads.typeName .decimal (by decide)
  | enum8 type => exact (EnumType.Proper.reads proper (by decide)).typeName .enum8 (by decide)
  | enum16 type => exact (EnumType.Proper.reads proper (by decide)).typeName .enum16 (by decide)
  | _ => exact reads_typeName _

theorem LeafType.Proper.reads {type : LeafType} (proper : type.Proper) :
    Reads type.getName (.call (ascii type.code.typeName) type.arguments) := by
  cases type with
  | fixed type => exact FixedType.Proper.reads proper
  | fixedString size =>
    exact (readsElements_toDecimal proper.2).typeName .fixedString (by decide)
  | _ => exact reads_typeName _

theorem tupleFields_nil (items : List Bytes) : tupleFields [] items = items := by
  cases items <;> rfl

mutual

/-- The name of a type is read as its tree. -/
theorem Ty.Proper.reads {type : Ty} (proper : type.Proper) : Reads type.getName type.fill := by
  match type, proper with
  | .leaf type, proper => exact LeafType.Proper.reads proper
  | .geo kind, _ => exact reads_typeName kind.code
  | .array item, proper =>
    have reads : Reads item.getName item.fill := Ty.Proper.reads proper
    exact reads.element.typeName .array (by decide)
  | .nullable nested, proper =>
    have reads : Reads nested.getName nested.fill := Ty.Proper.reads proper
    exact reads.element.typeName .nullable (by decide)
  | .tuple items names, ⟨nonempty, counts, lexed, proper⟩ =>
    have fields := Ty.AllProper.reads proper counts lexed
    have some : tupleFields names (Ty.getNames items) ≠ [] := by
      cases items with
      | nil => exact absurd rfl nonempty
      | cons item items => cases names <;> exact cons_ne_nil _ _
    have reads := readsElements_joinComma fields some
    rw [← flatMap_def, flatMap_singleton'] at reads
    exact reads.typeName .tuple (by decide)
  | .lowCardinality (.leaf type), proper =>
    exact (LeafType.Proper.reads proper.1).element.typeName .lowCardinality (by decide)
  | .lowCardinality (.nullable (.leaf type)), proper =>
    have reads : Reads (Ty.nullable (.leaf type)).getName (Ty.nullable (.leaf type)).fill :=
      (LeafType.Proper.reads proper.1).element.typeName .nullable (by decide)
    exact reads.element.typeName .lowCardinality (by decide)
  | .map key value, ⟨keyProper, valueProper⟩ =>
    have reads := (Ty.Proper.reads keyProper).element.append separates_commaSpace
      (Ty.Proper.reads valueProper).element
    rw [Ty.getName, append_assoc (ascii "Map("), append_assoc (ascii "Map(")]
    exact reads.typeName .map (by decide)

theorem Ty.AllProper.reads {items : List Ty} (proper : Ty.AllProper items) {names : List Bytes}
    (counts : names = [] ∨ names.length = items.length)
    (lexed : ∀ name ∈ names, name ≠ [] ∧ LexesBack name) :
    Forall₂ ReadsElements (tupleFields names (Ty.getNames items))
      ((Ty.fields names items).map ([·])) := by
  match items, proper, names with
  | [], _, [] => exact .nil
  | [], _, name :: names => simp at counts
  | item :: items, ⟨first, others⟩, [] =>
    have rest := Ty.AllProper.reads others (.inl rfl) lexed
    rw [tupleFields_nil] at rest
    exact .cons (Ty.Proper.reads first).element rest
  | item :: items, ⟨first, others⟩, name :: names =>
    have rest := Ty.AllProper.reads others (.inr (by simpa using counts))
      fun other mem => lexed other (mem_cons_of_mem _ mem)
    exact .cons ((Ty.Proper.reads first).field (lexed name (mem_cons_self ..)).2) rest

end

/-! ## Parsing -/

theorem validateAST_ast (type : Ty) : validateAST type.ast = true := by
  have code : type.ast.code = type.code := getTypeCode_typeName _
  by_cases void : type.code = .void
  · have name : type.ast.name = ascii "Void" := by
      show ascii type.code.typeName = _
      rw [void]
      rfl
    have lower : ((ascii "Void").map toLower != ascii "void") = false := by decide
    rw [validateAST, name, lower, Bool.and_false, Bool.not_false]
  · rw [validateAST, code, beq_eq_false_iff_ne.mpr void]
    simp

/-- A text that is read as one element is the name of that element. -/
theorem Reads.parseTypeName (reads : Reads text f) (valid : validateAST (f .blank) = true) :
    ClickHouse.parseTypeName text = .ok (some (f .blank)) := by
  obtain ⟨tokens, nonempty, fills, scans⟩ := reads
  have lexed := scans [] delimits_nil
  have length : tokens.length ≠ 0 := fun zero => nonempty (length_eq_zero_iff.mp zero)
  have parsed : parse text .start = .ok true (start.update f) := by
    rw [append_nil, tokenize_nil] at lexed
    rw [parse, lexed, fills]
    show EStateM.Result.ok (_ && _ && validateAST (f .blank)) _ = _
    rw [valid]
    simp [start, update, length]
  rw [ClickHouse.parseTypeName, parsed]
  rfl

/-- The parser gives back the tree of every type from its name. -/
theorem parseTypeName_getName {type : Ty} (proper : type.Proper) :
    parseTypeName type.getName = .ok (some type.ast) :=
  (Ty.Proper.reads proper).parseTypeName (validateAST_ast type)

end ClickHouse
