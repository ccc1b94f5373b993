/-
# RSL evaluation and lexical scoping

What a tree means is said with environments: lists of scopes, the innermost one first, where a scope is a
partial function from names to strings.  A boolean has a scope of its own, which is empty at its beginning.
A substitution that is an operand of the boolean binds names in it, and a name that is bound there keeps its
value.  The operands behind it see the binding, and so do the pairs behind it in the same relation.

`globus_rsl_eval` computes this meaning if there is one (`exists_eval_iff`).  If there is none, it fails in
the middle of the tree and leaves all scopes in the symbol table that it has created on its way there.  So it
gives the symbol table back if and only if the tree has a meaning or is a single relation.
-/
import Gct.Rsl.Eval
import Gct.Rsl.Parser

namespace Gct.Rsl

/-! ## 1. Environments -/

abbrev Scope := List Char → Option (List Char)

abbrev Env := List Scope

namespace Env

/-- The innermost binding of a name. -/
def find (env : Env) (name : List Char) : Option (List Char) := env.findSome? fun scope => scope name

/-- The innermost scope binds the name, unless it does already. -/
def bind (env : Env) (name value : List Char) : Env :=
  env.modifyHead fun scope n => if n = name then (scope n).or (some value) else scope n

/-- A new scope, in which nothing is bound. -/
def enter (env : Env) : Env := (fun _ => none) :: env

end Env

/-- The environment of a symbol table. -/
def envOf (table : SymbolTable) : Env := table.map fun scope name => scope.lookup name

/-! ## 2. What trees mean -/

/-- The string that a value is. -/
inductive Denotes (env : Env) : Value → List Char → Prop
  | literal (s : List Char) : Denotes env (.literal s) s
  | variableRef {name value : List Char} :
      env.find name = some value → Denotes env (.variableRef [.literal name]) value
  | concatenation {leftValue rightValue : Value} {left right : List Char} :
      Denotes env leftValue left → Denotes env rightValue right →
      Denotes env (.concatenation leftValue rightValue) (left ++ right)

mutual

/-- Every value that is not a sequence becomes the literal of its string. -/
inductive Becomes (env : Env) : Value → Value → Prop
  | string {value : Value} {s : List Char} : Denotes env value s → Becomes env value (.literal s)
  | sequence {values values' : List Value} :
      BecomesAll env values values' → Becomes env (.sequence values) (.sequence values')

inductive BecomesAll (env : Env) : List Value → List Value → Prop
  | nil : BecomesAll env [] []
  | cons {value value' : Value} {values values' : List Value} :
      Becomes env value value' → BecomesAll env values values' →
      BecomesAll env (value :: values) (value' :: values')

end

/-- The pairs of a substitution are bound one after the other. -/
inductive Binds : Env → List Value → List Value → Env → Prop
  | nil (env : Env) : Binds env [] [] env
  | cons {env env' : Env} {symbolName symbolValue : Value} {name value : List Char}
      {values values' : List Value} :
      Denotes env symbolName name → Denotes env symbolValue value →
      Binds (env.bind name value) values values' env' →
      Binds env (.sequence [symbolName, symbolValue] :: values)
        (.sequence [.literal name, .literal value] :: values') env'

mutual

/-- In the environment before it a specification becomes another one, with the environment behind it. -/
inductive Means : Env → Spec → Spec → Env → Prop
  | relation {env : Env} {operator : RelationOp} {attributeName : List Char} {values values' : List Value} :
      isSubstitution attributeName = false → BecomesAll env values values' →
      Means env (.relation operator attributeName values) (.relation operator attributeName values') env
  | substitution {env env' : Env} {operator : RelationOp} {attributeName : List Char}
      {values values' : List Value} :
      isSubstitution attributeName = true → Binds env values values' env' →
      Means env (.relation operator attributeName values) (.relation operator attributeName values') env'
  | boolean {env env' : Env} {operator : BooleanOp} {operands operands' : List Spec} :
      MeansAll env.enter operands operands' env' →
      Means env (.boolean operator operands) (.boolean operator operands') env

inductive MeansAll : Env → List Spec → List Spec → Env → Prop
  | nil (env : Env) : MeansAll env [] [] env
  | cons {env env' env'' : Env} {operand operand' : Spec} {operands operands' : List Spec} :
      Means env operand operand' env' → MeansAll env' operands operands' env'' →
      MeansAll env (operand :: operands) (operand' :: operands') env''

end

/-! ## 3. The shape of a tree -/

mutual

/-- There is no variable reference and no concatenation. -/
def Value.IsPlain : Value → Prop
  | .literal _ => True
  | .sequence values => Value.AllPlain values
  | .variableRef _ => False
  | .concatenation _ _ => False

def Value.AllPlain : List Value → Prop
  | [] => True
  | value :: values => value.IsPlain ∧ Value.AllPlain values

end

mutual

def Spec.IsPlain : Spec → Prop
  | .boolean _ operands => Spec.AllPlain operands
  | .relation _ _ values => Value.AllPlain values

def Spec.AllPlain : List Spec → Prop
  | [] => True
  | operand :: operands => operand.IsPlain ∧ Spec.AllPlain operands

end

mutual

/-- The sequences are the same, up to the values in them that are none. -/
def Value.SameShape : Value → Value → Prop
  | .sequence values, .sequence values' => Value.SameShapes values values'
  | value, value' => value.isSequence = false ∧ value'.isSequence = false

def Value.SameShapes : List Value → List Value → Prop
  | [], [] => True
  | value :: values, value' :: values' => value.SameShape value' ∧ Value.SameShapes values values'
  | _, _ => False

end

mutual

/-- The booleans, relations, operators and attributes are the same, and the sequences in them. -/
def Spec.SameShape : Spec → Spec → Prop
  | .boolean operator operands, .boolean operator' operands' =>
    operator = operator' ∧ Spec.SameShapes operands operands'
  | .relation operator attributeName values, .relation operator' attributeName' values' =>
    operator = operator' ∧ attributeName = attributeName' ∧ Value.SameShapes values values'
  | _, _ => False

def Spec.SameShapes : List Spec → List Spec → Prop
  | [], [] => True
  | operand :: operands, operand' :: operands' =>
    operand.SameShape operand' ∧ Spec.SameShapes operands operands'
  | _, _ => False

end

variable {s : List Char} {α β : Type} {table : SymbolTable} {values : List Value}

variable {env : Env} {e : Evaluation α} {f : α → SymbolTable → Evaluation β} {table table' : SymbolTable}

mutual

theorem Becomes.shape {env : Env} {value value' : Value} :
    Becomes env value value' → value'.IsPlain ∧ value.SameShape value'
  | .string h => by
    refine ⟨trivial, ?_⟩
    cases h <;> exact ⟨rfl, rfl⟩
  | .sequence h => h.shape

theorem BecomesAll.shape {env : Env} {values values' : List Value} :
    BecomesAll env values values' → Value.AllPlain values' ∧ Value.SameShapes values values'
  | .nil => ⟨trivial, trivial⟩
  | .cons h h' => ⟨⟨h.shape.1, h'.shape.1⟩, h.shape.2, h'.shape.2⟩

end

theorem Binds.shape {env' : Env} {values values' : List Value} (h : Binds env values values' env') :
    Value.AllPlain values' ∧ Value.SameShapes values values' := by
  induction h with
  | nil env => exact ⟨trivial, trivial⟩
  | cons hname hvalue _ ih =>
    have hname := (Becomes.string hname).shape
    have hvalue := (Becomes.string hvalue).shape
    exact ⟨⟨⟨trivial, trivial, trivial⟩, ih.1⟩, ⟨hname.2, hvalue.2, trivial⟩, ih.2⟩

mutual

theorem Means.shape {env env' : Env} {spec spec' : Spec} :
    Means env spec spec' env' → spec'.IsPlain ∧ spec.SameShape spec'
  | .relation _ h => ⟨h.shape.1, rfl, rfl, h.shape.2⟩
  | .substitution _ h => ⟨h.shape.1, rfl, rfl, h.shape.2⟩
  | .boolean h => ⟨h.shape.1, rfl, h.shape.2⟩

theorem MeansAll.shape {env env' : Env} {specs specs' : List Spec} :
    MeansAll env specs specs' env' → Spec.AllPlain specs' ∧ Spec.SameShapes specs specs'
  | .nil _ => ⟨trivial, trivial⟩
  | .cons h h' => ⟨⟨h.shape.1, h'.shape.1⟩, h.shape.2, h'.shape.2⟩

end

/-! ## 4. Symbol tables as environments -/

theorem find_envOf (table : SymbolTable) (name : List Char) : (envOf table).find name = table.lookup name := by
  rw [Env.find, envOf, List.findSome?_map]
  rfl

theorem envOf_insert (table : SymbolTable) (name value : List Char) :
    envOf (table.insert name value) = (envOf table).bind name value := by
  cases table with
  | nil => rfl
  | cons scope outer =>
    have hscope : (fun n => (scope.insert name value).lookup n) =
        fun n => if n = name then (scope.lookup n).or (some value) else scope.lookup n :=
      funext fun n => scope.lookup_insert name value n
    exact congrArg (· :: envOf outer) hscope

theorem andThen_eq_some {b : β} (h : e.andThen f = (some b, table)) :
    ∃ a table', e = (some a, table') ∧ f a table' = (some b, table) := by
  obtain ⟨_ | a, table'⟩ := e
  · cases h
  · exact ⟨a, table', rfl, h⟩

theorem andThen_some {a : α} (h : e = (some a, table))
    (f : α → SymbolTable → Evaluation β) : e.andThen f = f a table := by
  rw [h]
  rfl

/-! ## 5. Values -/

theorem variableEval_of_lookup {name value : List Char} (h : table.lookup name = some value) :
    variableEval [.literal name] table = (some (.string value), table) := by
  simp only [variableEval, variableGetName, List.head?_cons, Option.bind_some, Value.literalGetString, h]
  rfl

theorem Denotes.valueEval {value : Value} {s : List Char} (h : Denotes (envOf table) value s) (flag : Bool) :
    valueEval flag value table = (some (.string s), table) := by
  induction h with
  | literal s => rw [Rsl.valueEval]
  | variableRef hfind =>
    rw [find_envOf] at hfind
    rw [Rsl.valueEval, variableEval_of_lookup hfind]
  | concatenation _ _ ihl ihr =>
    rw [Rsl.valueEval, andThen_some ihl, andThen_some ihr, concatenate]

theorem denotes_of_variableEval (h : variableEval values table = (some (.string s), table')) :
    table' = table ∧ Denotes (envOf table) (.variableRef values) s := by
  unfold variableEval at h
  split at h
  · cases h
  next hlen =>
    split at h
    · cases h
    next name hname =>
      split at h
      · cases h
      next hvalue =>
        cases h
        obtain ⟨value, rfl⟩ := List.length_eq_one_iff.mp (not_not.mp hlen)
        cases value with
        | literal string =>
          obtain rfl : string = name := Option.some.inj hname
          exact ⟨rfl, .variableRef (by rw [find_envOf]; exact hvalue)⟩
        | sequence | variableRef | concatenation => cases hname

theorem pairEval_ne_string {flag : Bool} : pairEval flag values table ≠ (some (.string s), table') := by
  intro h
  unfold pairEval at h
  split at h
  · obtain ⟨name, table₁, -, h⟩ := andThen_eq_some h
    obtain ⟨value, table₂, -, h⟩ := andThen_eq_some h
    unfold insertSymbol at h
    split at h <;> cases h
  · cases h

theorem denotes_of_valueEval (flag : Bool) : ∀ (value : Value) {table table' : SymbolTable} {s : List Char},
    valueEval flag value table = (some (.string s), table') → table' = table ∧ Denotes (envOf table) value s
  | .literal string, table, table', s, h => by
    cases h
    exact ⟨rfl, .literal _⟩
  | .sequence values, table, table', s, h => by
    rw [valueEval] at h
    split at h
    · exact absurd h pairEval_ne_string
    · obtain ⟨values', table₁, -, h⟩ := andThen_eq_some h
      cases h
  | .variableRef values, table, table', s, h => by
    rw [valueEval] at h
    exact denotes_of_variableEval h
  | .concatenation leftValue rightValue, table, table', s, h => by
    obtain ⟨left, table₁, hleft, h⟩ := andThen_eq_some h
    obtain ⟨right, table₂, hright, h⟩ := andThen_eq_some h
    unfold concatenate at h
    split at h
    · cases h
      obtain ⟨rfl, hleft⟩ := denotes_of_valueEval flag leftValue hleft
      obtain ⟨rfl, hright⟩ := denotes_of_valueEval flag rightValue hright
      exact ⟨rfl, .concatenation hleft hright⟩
    · cases h

mutual

theorem Becomes.valueEval {table : SymbolTable} {value value' : Value} :
    Becomes (envOf table) value value' → ∃ evaluated : Evaluated, evaluated.toValue = value' ∧
        valueEval false value table = (some evaluated, table)
  | .string h => ⟨_, rfl, h.valueEval false⟩
  | .sequence h => by
    refine ⟨.sequence _, rfl, ?_⟩
    rw [Rsl.valueEval, if_neg (by decide), andThen_some h.sequenceEval]

theorem BecomesAll.sequenceEval {table : SymbolTable} {values values' : List Value} :
    BecomesAll (envOf table) values values' → sequenceEval false values table = (some values', table)
  | .nil => by rw [Rsl.sequenceEval]
  | .cons h h' => by
    obtain ⟨evaluated, rfl, heval⟩ := h.valueEval
    rw [Rsl.sequenceEval, andThen_some heval, andThen_some h'.sequenceEval]

end

mutual

theorem becomes_of_valueEval : ∀ (value : Value) {table table' : SymbolTable} {evaluated : Evaluated},
    valueEval false value table = (some evaluated, table') →
      table' = table ∧ Becomes (envOf table) value evaluated.toValue
  | value, table, table', .string s, h => by
    obtain ⟨htable, hvalue⟩ := denotes_of_valueEval false value h
    exact ⟨htable, .string hvalue⟩
  | .sequence values, table, table', .sequence values', h => by
    obtain ⟨values'', table₁, hvalues, h⟩ := andThen_eq_some h
    cases h
    obtain ⟨htable, hall⟩ := becomes_of_sequenceEval values hvalues
    exact ⟨htable, .sequence hall⟩
  | .literal string, table, table', .sequence values', h => by
    cases h
  | .variableRef values, table, table', .sequence values', h => by
    rw [valueEval] at h
    unfold variableEval at h
    repeat' split at h
    all_goals cases h
  | .concatenation leftValue rightValue, table, table', .sequence values', h => by
    obtain ⟨left, table₁, -, h⟩ := andThen_eq_some h
    obtain ⟨right, table₂, -, h⟩ := andThen_eq_some h
    unfold concatenate at h
    split at h <;> cases h

theorem becomes_of_sequenceEval : ∀ (values : List Value) {table table' : SymbolTable} {values' : List Value},
    sequenceEval false values table = (some values', table') → table' = table ∧ BecomesAll (envOf table) values values'
  | [], table, table', values', h => by
    cases h
    exact ⟨rfl, .nil⟩
  | value :: values, table, table', values', h => by
    obtain ⟨evaluated, table₁, hvalue, h⟩ := andThen_eq_some h
    obtain ⟨values'', table₂, hvalues, h⟩ := andThen_eq_some h
    cases h
    obtain ⟨rfl, hvalue⟩ := becomes_of_valueEval value hvalue
    obtain ⟨rfl, hvalues⟩ := becomes_of_sequenceEval values hvalues
    exact ⟨rfl, .cons hvalue hvalues⟩

end

/-! ## 6. Substitutions -/

theorem valueEval_true_sequence (values : List Value) (table : SymbolTable) :
    valueEval true (.sequence values) table = pairEval true values table := by
  rw [valueEval, if_pos rfl]

theorem denotes_of_pairEval {evaluated : Evaluated} (h : pairEval true values table = (some evaluated, table')) :
    ∃ symbolName symbolValue name value, values = [symbolName, symbolValue] ∧
      Denotes (envOf table) symbolName name ∧ Denotes (envOf table) symbolValue value ∧
      evaluated = .sequence [.literal name, .literal value] ∧ table' = table.insert name value := by
  unfold pairEval at h
  split at h
  · obtain ⟨name, table₁, hname, h⟩ := andThen_eq_some h
    obtain ⟨value, table₂, hvalue, h⟩ := andThen_eq_some h
    unfold insertSymbol at h
    split at h
    · cases h
      obtain ⟨rfl, hname⟩ := denotes_of_valueEval true _ hname
      obtain ⟨rfl, hvalue⟩ := denotes_of_valueEval true _ hvalue
      exact ⟨_, _, _, _, rfl, hname, hvalue, rfl, rfl⟩
    · cases h
  · cases h

theorem Binds.relationEval {env' : Env} {values values' : List Value} (h : Binds env values values' env') :
    ∀ {table : SymbolTable}, envOf table = env →
      ∃ table', relationEval true values table = (some values', table') ∧ envOf table' = env' := by
  induction h with
  | nil env => exact fun htable => ⟨_, rfl, htable⟩
  | cons hname hvalue _ ih =>
    intro table htable
    subst htable
    obtain ⟨table', heval, htable'⟩ := ih (envOf_insert table _ _)
    refine ⟨table', ?_, htable'⟩
    rw [Rsl.relationEval, if_neg (by simp [Value.isSequence]), valueEval_true_sequence, pairEval,
      andThen_some (hname.valueEval true), andThen_some (hvalue.valueEval true), insertSymbol, andThen_some rfl,
      andThen_some heval, Evaluated.toValue]

theorem binds_of_relationEval : ∀ {table table' : SymbolTable} {values' : List Value},
      relationEval true values table = (some values', table') → Binds (envOf table) values values' (envOf table') := by
  induction values with
  | nil =>
    intro table table' values' h
    cases h
    exact .nil _
  | cons value values ih =>
    intro table table' values' h
    rw [relationEval] at h
    split at h
    · cases h
    next hsequence =>
      obtain ⟨evaluated, table₁, hvalue, h⟩ := andThen_eq_some h
      obtain ⟨values'', table₂, hvalues, h⟩ := andThen_eq_some h
      cases h
      cases value with
      | sequence elements =>
        obtain ⟨symbolName, symbolValue, name, value, rfl, hname, hval, rfl, rfl⟩ := denotes_of_pairEval hvalue
        have hrest := ih hvalues
        rw [envOf_insert] at hrest
        exact .cons hname hval hrest
      | literal | variableRef | concatenation => exact absurd rfl hsequence

/-- In a relation that is no substitution, the loop is that of a sequence. -/
theorem relationEval_false (values : List Value) (table : SymbolTable) :
    relationEval false values table = sequenceEval false values table := by
  induction values generalizing table with
  | nil => rw [relationEval, sequenceEval]
  | cons value values ih =>
    rw [relationEval, sequenceEval, if_neg (by simp)]
    simp only [ih]

/-! ## 7. What is left in the symbol table -/

/-- Only a substitution adds entries to the symbol table. -/
def Kept (flag : Bool) (before after : SymbolTable) : Prop := if flag then before.Extends after else after = before

section Kept

variable {flag : Bool}

theorem Kept.refl (table : SymbolTable) : Kept flag table table := by
  unfold Kept
  split
  · exact .refl table
  · rfl

theorem Kept.trans {table'' : SymbolTable} (h : Kept flag table table') (h' : Kept flag table' table'') :
    Kept flag table table'' := by
  unfold Kept at h h' ⊢
  split_ifs at h h' ⊢
  · exact SymbolTable.Extends.trans h h'
  · exact h'.trans h

theorem Kept.extends (h : Kept flag table table') : table.Extends table' := by
  unfold Kept at h
  split at h
  · exact h
  · rw [h]
    exact .refl table

theorem kept_andThen (he : Kept flag table e.2)
    (hf : ∀ (a : α) (table' : SymbolTable), Kept flag table' (f a table').2) : Kept flag table (e.andThen f).2 := by
  obtain ⟨_ | a, table'⟩ := e
  · exact he
  · exact he.trans (hf a table')

theorem kept_variableEval (values : List Value) (table : SymbolTable) :
    Kept flag table (variableEval values table).2 := by
  unfold variableEval
  repeat' split
  all_goals exact .refl table

theorem kept_concatenate (left right : Evaluated) (table : SymbolTable) :
    Kept flag table (concatenate left right table).2 := by
  unfold concatenate
  split <;> exact .refl table

theorem kept_insertSymbol (hflag : flag = true) (symbolName symbolValue : Evaluated) (table : SymbolTable) :
    Kept flag table (insertSymbol symbolName symbolValue table).2 := by
  rw [Kept, if_pos hflag]
  unfold insertSymbol
  split
  · exact .insert table _ _
  · exact .refl table

end Kept

mutual

/-- The evaluation of values only adds entries to the innermost scope, and only in a substitution. -/
theorem kept_valueEval (flag : Bool) : ∀ (value : Value) (table : SymbolTable),
    Kept flag table (valueEval flag value table).2
  | .literal string, table => by
    rw [valueEval]
    exact .refl table
  | .sequence values, table => by
    rw [valueEval]
    split
    next hflag => exact kept_pairEval flag hflag values table
    next => exact kept_andThen (kept_sequenceEval flag values table) fun _ table' => .refl table'
  | .variableRef values, table => by
    rw [valueEval]
    exact kept_variableEval values table
  | .concatenation leftValue rightValue, table => by
    rw [valueEval]
    exact kept_andThen (kept_valueEval flag leftValue table) fun left table₁ =>
      kept_andThen (kept_valueEval flag rightValue table₁) fun right table₂ =>
        kept_concatenate left right table₂

theorem kept_pairEval (flag : Bool) (hflag : flag = true) : ∀ (values : List Value) (table : SymbolTable),
    Kept flag table (pairEval flag values table).2
  | [symbolName, symbolValue], table => by
    rw [pairEval]
    exact kept_andThen (kept_valueEval flag symbolName table) fun name table₁ =>
      kept_andThen (kept_valueEval flag symbolValue table₁) fun value table₂ =>
        kept_insertSymbol hflag name value table₂
  | [], table | [_], table | _ :: _ :: _ :: _, table => .refl table

theorem kept_sequenceEval (flag : Bool) : ∀ (values : List Value) (table : SymbolTable),
    Kept flag table (sequenceEval flag values table).2
  | [], table => .refl table
  | value :: values, table => by
    rw [sequenceEval]
    exact kept_andThen (kept_valueEval flag value table) fun _ table₁ =>
      kept_andThen (kept_sequenceEval flag values table₁) fun _ table₂ => .refl table₂

end

theorem kept_relationEval (flag : Bool) (values : List Value) (table : SymbolTable) :
    Kept flag table (relationEval flag values table).2 := by
  induction values generalizing table with
  | nil => exact .refl table
  | cons value values ih =>
    rw [relationEval]
    split
    · exact .refl table
    · exact kept_andThen (kept_valueEval flag value table) fun _ table₁ =>
        kept_andThen (ih table₁) fun _ table₂ => .refl table₂

/-! ## 8. Specifications -/

mutual

/-- **What the evaluation computes is what the tree means.** -/
theorem means_of_eval : ∀ (spec : Spec) {table table' : SymbolTable} {spec' : Spec},
    eval spec table = (some spec', table') → Means (envOf table) spec spec' (envOf table') ∧ table.Extends table'
  | .boolean operator operands, table, table', spec', h => by
    obtain ⟨operands', table₁, hoperands, h⟩ := andThen_eq_some h
    cases h
    obtain ⟨hmeans, hextends⟩ := means_of_evalOperands operands hoperands
    have htable : table₁.removeScope = table := hextends.tail
    rw [htable]
    exact ⟨.boolean hmeans, .refl table⟩
  | .relation operator attributeName values, table, table', spec', h => by
    have hextends := (kept_relationEval (isSubstitution attributeName) values table).extends
    obtain ⟨values', table₁, hvalues, h⟩ := andThen_eq_some h
    rw [hvalues] at hextends
    cases h
    refine ⟨?_, hextends⟩
    cases hflag : isSubstitution attributeName with
    | true =>
      rw [hflag] at hvalues
      exact .substitution hflag (binds_of_relationEval hvalues)
    | false =>
      rw [hflag, relationEval_false] at hvalues
      obtain ⟨rfl, hall⟩ := becomes_of_sequenceEval values hvalues
      exact .relation hflag hall

theorem means_of_evalOperands : ∀ (operands : List Spec) {table table' : SymbolTable} {operands' : List Spec},
    evalOperands operands table = (some operands', table') →
      MeansAll (envOf table) operands operands' (envOf table') ∧ table.Extends table'
  | [], table, table', operands', h => by
    cases h
    exact ⟨.nil _, .refl table⟩
  | operand :: operands, table, table', operands', h => by
    obtain ⟨operand', table₁, hoperand, h⟩ := andThen_eq_some h
    obtain ⟨operands'', table₂, hoperands, h⟩ := andThen_eq_some h
    cases h
    obtain ⟨hmeans, hextends⟩ := means_of_eval operand hoperand
    obtain ⟨hmeans', hextends'⟩ := means_of_evalOperands operands hoperands
    exact ⟨.cons hmeans hmeans', hextends.trans hextends'⟩

end

mutual

/-- **What a tree means is computed.** -/
theorem Means.eval {env env' : Env} {spec spec' : Spec} :
    Means env spec spec' env' → ∀ {table : SymbolTable}, envOf table = env →
      ∃ table', eval spec table = (some spec', table') ∧ envOf table' = env'
  | .relation hflag h, table, htable => by
    subst htable
    refine ⟨table, ?_, rfl⟩
    rw [Rsl.eval, hflag, relationEval_false, andThen_some h.sequenceEval]
  | .substitution hflag h, table, htable => by
    obtain ⟨table', heval, htable'⟩ := h.relationEval htable
    refine ⟨table', ?_, htable'⟩
    rw [Rsl.eval, hflag, andThen_some heval]
  | .boolean h, table, htable => by
    have hscope : envOf table.createScope = env.enter := by
      rw [← htable]
      rfl
    obtain ⟨table', heval, -⟩ := h.evalOperands hscope
    refine ⟨table'.removeScope, ?_, ?_⟩
    · rw [Rsl.eval, andThen_some heval]
    · have hscopes := (means_of_evalOperands _ heval).2.tail
      rw [← htable]
      exact congrArg envOf hscopes

theorem MeansAll.evalOperands {env env' : Env} {operands operands' : List Spec} :
    MeansAll env operands operands' env' → ∀ {table : SymbolTable}, envOf table = env →
      ∃ table', evalOperands operands table = (some operands', table') ∧ envOf table' = env'
  | .nil _, table, htable => ⟨table, by rw [Rsl.evalOperands], htable⟩
  | .cons h h', table, htable => by
    obtain ⟨table₁, hoperand, htable₁⟩ := h.eval htable
    obtain ⟨table₂, hoperands, htable₂⟩ := h'.evalOperands htable₁
    refine ⟨table₂, ?_, htable₂⟩
    rw [Rsl.evalOperands, andThen_some hoperand, andThen_some hoperands]

end

/-! ## 9. The symbol table afterwards -/

theorem length_le_andThen (he : table.length ≤ e.2.length)
    (hf : ∀ (a : α) (table' : SymbolTable), e = (some a, table') → table.length ≤ (f a table').2.length) :
    table.length ≤ (e.andThen f).2.length := by
  obtain ⟨_ | a, table'⟩ := e
  · exact he
  · exact hf a table' rfl

mutual

/-- No scope is lost. -/
theorem length_le_eval : ∀ (spec : Spec) (table : SymbolTable), table.length ≤ (eval spec table).2.length
  | .boolean operator operands, table => by
    have hoperands := length_le_evalOperands operands table.createScope
    rw [eval]
    refine length_le_andThen (Nat.le_of_succ_le hoperands) fun operands' table' hsome => ?_
    have hscopes : table'.removeScope = table := (means_of_evalOperands operands hsome).2.tail
    exact Nat.le_of_eq (congrArg List.length hscopes.symm)
  | .relation operator attributeName values, table => by
    have hvalues := (kept_relationEval (isSubstitution attributeName) values table).extends.length
    rw [eval]
    refine length_le_andThen (Nat.le_of_eq hvalues.symm) fun values' table' hsome => ?_
    rw [hsome] at hvalues
    exact Nat.le_of_eq hvalues.symm

theorem length_le_evalOperands : ∀ (operands : List Spec) (table : SymbolTable),
    table.length ≤ (evalOperands operands table).2.length
  | [], table => Nat.le_of_eq (by rw [evalOperands])
  | operand :: operands, table => by
    have hoperand := length_le_eval operand table
    rw [evalOperands]
    refine length_le_andThen hoperand fun operand' table₁ hsome => ?_
    rw [hsome] at hoperand
    have hoperands := Nat.le_trans hoperand (length_le_evalOperands operands table₁)
    refine length_le_andThen hoperands fun operands' table₂ hsome' => ?_
    rw [hsome'] at hoperands
    exact hoperands

end

/-- A boolean that cannot be evaluated leaves its scope behind. -/
theorem lt_length_of_eval_boolean {operator : BooleanOp} {operands : List Spec}
    (h : (eval (.boolean operator operands) table).1 = none) :
    table.length < (eval (.boolean operator operands) table).2.length := by
  have hoperands := length_le_evalOperands operands table.createScope
  rw [eval] at h ⊢
  revert h hoperands
  generalize evalOperands operands table.createScope = e
  obtain ⟨_ | operands', table'⟩ := e
  · exact fun _ hoperands => hoperands
  · exact fun h _ => nomatch h

/-- The symbol table has the scopes that it had before.  A substitution that stands alone has added its
symbols to the innermost one. -/
def Restored : Spec → SymbolTable → SymbolTable → Prop
  | .boolean _ _, before, after => after = before
  | .relation _ attributeName _, before, after =>
    if isSubstitution attributeName then before.Extends after else after = before

def Spec.IsRelation : Spec → Prop
  | .boolean _ _ => False
  | .relation _ _ _ => True

theorem restored_relation (operator : RelationOp) (attributeName : List Char) (values : List Value)
    (table : SymbolTable) : Restored (.relation operator attributeName values) table
      (eval (.relation operator attributeName values) table).2 := by
  have heval : (eval (.relation operator attributeName values) table).2 =
      (relationEval (isSubstitution attributeName) values table).2 := by
    rw [eval]
    generalize relationEval (isSubstitution attributeName) values table = e
    obtain ⟨_ | values', table'⟩ := e <;> rfl
  rw [heval]
  exact kept_relationEval (isSubstitution attributeName) values table

/-- **The boolean gives the symbol table back exactly if it is evaluated.** -/
theorem restored_boolean_iff (operator : BooleanOp) (operands : List Spec) (table : SymbolTable) :
    Restored (.boolean operator operands) table (eval (.boolean operator operands) table).2 ↔
      ∃ spec', (eval (.boolean operator operands) table).1 = some spec' := by
  constructor
  · intro h
    cases hsome : (eval (.boolean operator operands) table).1 with
    | some spec' => exact ⟨spec', rfl⟩
    | none =>
      have hlt := lt_length_of_eval_boolean hsome
      rw [show (eval (.boolean operator operands) table).2 = table from h] at hlt
      exact absurd hlt (Nat.lt_irrefl _)
  · rintro ⟨spec', hsome⟩
    rw [eval] at hsome ⊢
    obtain ⟨operands', table₁, hoperands, -⟩ := andThen_eq_some (Prod.ext hsome rfl)
    rw [andThen_some hoperands]
    exact (means_of_evalOperands operands hoperands).2.tail

/-- **A tree is evaluated if and only if it has a meaning.** -/
theorem exists_eval_iff (spec : Spec) (table : SymbolTable) :
    (∃ spec', (eval spec table).1 = some spec') ↔ ∃ spec' env', Means (envOf table) spec spec' env' := by
  constructor
  · rintro ⟨spec', hsome⟩
    exact ⟨spec', _, (means_of_eval spec (Prod.ext hsome rfl)).1⟩
  · rintro ⟨spec', env', hmeans⟩
    obtain ⟨table', heval, -⟩ := hmeans.eval rfl
    exact ⟨spec', by rw [heval]⟩

/-- **Evaluation replaces a tree by its meaning, but gives the symbol table back only where there is
one.** -/
theorem eval_lexical_iff (spec : Spec) (table : SymbolTable) :
    ((∀ spec', (eval spec table).1 = some spec' →
        spec'.IsPlain ∧ spec.SameShape spec' ∧ ∃ env', Means (envOf table) spec spec' env') ∧
      Restored spec table (eval spec table).2) ↔
    spec.IsRelation ∨ ∃ spec' env', Means (envOf table) spec spec' env' := by
  have hmeaning : ∀ spec', (eval spec table).1 = some spec' →
      spec'.IsPlain ∧ spec.SameShape spec' ∧ ∃ env', Means (envOf table) spec spec' env' := by
    intro spec' hsome
    have hmeans := (means_of_eval spec (Prod.ext hsome rfl)).1
    exact ⟨hmeans.shape.1, hmeans.shape.2, _, hmeans⟩
  rw [and_iff_right hmeaning, ← exists_eval_iff]
  cases spec with
  | boolean operator operands =>
    rw [restored_boolean_iff]
    exact ⟨.inr, fun h => h.resolve_left id⟩
  | relation operator attributeName values =>
    exact ⟨fun _ => .inl trivial, fun _ => restored_relation operator attributeName values table⟩

/-- `&(a=$(X))` and a symbol table with one empty scope: `X` has no value, and the scope of the boolean is
left in the symbol table. -/
theorem eval_leaves_scope :
    ∃ spec, parse "&(a=$(X))".toList = some spec ∧ eval spec [[]] = (none, [[], []]) ∧
      ¬ Restored spec [[]] (eval spec [[]]).2 := by
  have hscan : scan "&(a=$(X))".toList =
      [.opAnd, .lparen, .string ['a'], .opEq, .variableStart, .lparen, .string ['X'], .rparen, .rparen] := by
    decide +kernel
  have heval : eval (.boolean .and [.relation .eq ['a'] [.variableRef [.literal ['X']]]]) [[]] =
      (none, [[], []]) := by
    rfl
  refine ⟨.boolean .and [.relation .eq ['a'] [.variableRef [.literal ['X']]]], ?_, heval, ?_⟩
  · rw [parse, hscan]
    rfl
  · rw [heval]
    exact nofun

end Gct.Rsl
