import StorageUpgrade.Identifier.Kind

/-!
# Type expressions

What a normalized identifier says: a word, or a word with brackets and what comes behind them. In
the brackets stands the name of a declaration or a list of type expressions; behind them stands
either further text or, for functions, the list of the types returned.
-/

namespace StorageUpgrade.Identifier

mutual

/-- The structure of a type identifier. -/
inductive TypeExpr where
  | word (head : List Char)
  | named (kind : NamedKind) (name : List Char) (ending : Ending)
  | applied (head : List Char) (args : List TypeExpr) (ending : Ending)

/-- What follows the brackets of an identifier. -/
inductive Ending where
  | tail (text : List Char)
  | returns (types : List TypeExpr)

end

/-- The word between the brackets of a function's arguments and those of its results. -/
def returnsWord : List Char := "returns".toList

mutual

/-- Writes an identifier in front of `rest`. -/
def TypeExpr.write (rest : List Char) : TypeExpr → List Char
  | .word head => head ++ rest
  | .named kind name ending => kind.head ++ '(' :: name ++ ')' :: ending.write rest
  | .applied head args ending => head ++ '(' :: writeFirst (ending.write rest) args

def Ending.write (rest : List Char) : Ending → List Char
  | .tail text => text ++ rest
  | .returns types => returnsWord ++ '(' :: writeFirst rest types

def writeFirst (rest : List Char) : List TypeExpr → List Char
  | [] => ')' :: rest
  | e :: es => e.write (writeMore rest es)

def writeMore (rest : List Char) : List TypeExpr → List Char
  | [] => ')' :: rest
  | e :: es => ',' :: e.write (writeMore rest es)

end

mutual

theorem TypeExpr.write_append (e : TypeExpr) (rest rest' : List Char) :
    e.write rest ++ rest' = e.write (rest ++ rest') := by
  cases e with
  | word => simp [TypeExpr.write]
  | named _ _ ending => simp [TypeExpr.write, ending.write_append rest rest']
  | applied _ args ending =>
    simp [TypeExpr.write, writeFirst_append args, ending.write_append rest rest']

theorem Ending.write_append (ending : Ending) (rest rest' : List Char) :
    ending.write rest ++ rest' = ending.write (rest ++ rest') := by
  cases ending with
  | tail => simp [Ending.write]
  | returns types => simp [Ending.write, writeFirst_append types rest rest']

theorem writeFirst_append (es : List TypeExpr) (rest rest' : List Char) :
    writeFirst rest es ++ rest' = writeFirst (rest ++ rest') es := by
  cases es with
  | nil => simp [writeFirst]
  | cons e es =>
    simp [writeFirst, e.write_append (writeMore rest es) rest', writeMore_append es rest rest']

theorem writeMore_append (es : List TypeExpr) (rest rest' : List Char) :
    writeMore rest es ++ rest' = writeMore (rest ++ rest') es := by
  cases es with
  | nil => simp [writeMore]
  | cons e es =>
    simp [writeMore, e.write_append (writeMore rest es) rest', writeMore_append es rest rest']

end

/-- The items behind the first are written like a list behind a comma. -/
theorem writeMore_of_ne_nil {es : List TypeExpr} (h : es ≠ []) (rest : List Char) :
    writeMore rest es = ',' :: writeFirst rest es := by
  cases es with
  | nil => exact absurd rfl h
  | cons e es => rfl

/-- The types behind the word `returns`, if it is there. -/
def Ending.types? : Ending → Option (List TypeExpr)
  | .tail _ => none
  | .returns types => some types

namespace TypeExpr

def text (e : TypeExpr) : List Char := e.write []

def id (e : TypeExpr) : String := String.ofList e.text

def headText : TypeExpr → List Char
  | word head => head
  | named kind _ _ => kind.head
  | applied head _ _ => head

def head (e : TypeExpr) : String := String.ofList e.headText

/-- The type arguments, if the brackets hold a list of types. -/
def args? : TypeExpr → Option (List TypeExpr)
  | applied _ args _ => some args
  | _ => none

/-- The types returned, if the identifier says. -/
def rets? : TypeExpr → Option (List TypeExpr)
  | word _ => none
  | named _ _ ending | applied _ _ ending => ending.types?

/-- Whether an identifier is headed by the word of a named kind. -/
def isNamed (e : TypeExpr) : Bool := (NamedKind.ofHead? e.headText).isSome

/-- The expressions directly within an expression, arguments first. -/
def parts (e : TypeExpr) : List TypeExpr := e.args?.getD [] ++ e.rets?.getD []

theorem length_write (e : TypeExpr) (rest : List Char) :
    (e.write rest).length = e.text.length + rest.length := by
  rw [text, ← List.length_append, e.write_append, List.nil_append]

end TypeExpr

theorem length_lt_writeMore (rest : List Char) (es : List TypeExpr) :
    rest.length < (writeMore rest es).length := by
  induction es with
  | nil => simp [writeMore]
  | cons e es ih =>
    rw [writeMore, List.length_cons, e.length_write]
    omega

theorem length_writeMore_of_mem {part : TypeExpr} {es : List TypeExpr} (h : part ∈ es)
    (rest : List Char) : part.text.length + rest.length < (writeMore rest es).length := by
  induction es with
  | nil => cases h
  | cons e es ih =>
    rw [writeMore, List.length_cons, e.length_write]
    rcases List.mem_cons.1 h with rfl | h
    · have hrest := length_lt_writeMore rest es
      omega
    · have hpart := ih h
      omega

theorem length_writeFirst_of_mem {part : TypeExpr} {es : List TypeExpr} (h : part ∈ es)
    (rest : List Char) : part.text.length + rest.length < (writeFirst rest es).length := by
  cases es with
  | nil => cases h
  | cons e es =>
    rw [writeFirst, e.length_write]
    rcases List.mem_cons.1 h with rfl | h
    · have hrest := length_lt_writeMore rest es
      omega
    · have hpart := length_writeMore_of_mem h rest
      omega

theorem length_lt_writeFirst (rest : List Char) (es : List TypeExpr) :
    rest.length < (writeFirst rest es).length := by
  cases es with
  | nil => simp [writeFirst]
  | cons e es =>
    have hmore := length_lt_writeMore rest es
    rw [writeFirst, e.length_write]
    omega

theorem Ending.length_write_of_mem {part : TypeExpr} {ending : Ending}
    (h : part ∈ ending.types?.getD []) : part.text.length < (ending.write []).length := by
  cases ending with
  | tail => cases h
  | returns types =>
    have hpart : part.text.length + 0 < (writeFirst [] types).length :=
      length_writeFirst_of_mem h []
    rw [Ending.write, List.length_append, List.length_cons]
    omega

theorem TypeExpr.length_text_of_mem_parts {e part : TypeExpr} (h : part ∈ e.parts) :
    part.text.length < e.text.length := by
  cases e with
  | word => cases h
  | named kind name ending =>
    have hpart : part.text.length < (ending.write []).length := Ending.length_write_of_mem h
    change _ < (kind.head ++ '(' :: name ++ ')' :: ending.write []).length
    rw [List.length_append, List.length_cons]
    omega
  | applied head args ending =>
    change _ < (head ++ '(' :: writeFirst (ending.write []) args).length
    rw [List.length_append, List.length_cons]
    rcases List.mem_append.1 h with h | h
    · have hpart : part.text.length + (ending.write []).length <
          (writeFirst (ending.write []) args).length := length_writeFirst_of_mem h _
      omega
    · have hpart : part.text.length < (ending.write []).length := Ending.length_write_of_mem h
      have hending := length_lt_writeFirst (ending.write []) args
      omega

mutual

/-- The number of expressions in an expression, itself included. -/
def TypeExpr.size : TypeExpr → Nat
  | .word _ => 1
  | .named _ _ ending => 1 + ending.size
  | .applied _ args ending => 1 + listSize args + ending.size

def Ending.size : Ending → Nat
  | .tail _ => 0
  | .returns types => listSize types

def listSize : List TypeExpr → Nat
  | [] => 0
  | e :: es => e.size + listSize es

end

mutual

/-- The number of levels of an expression. -/
def TypeExpr.height : TypeExpr → Nat
  | .word _ => 1
  | .named _ _ ending => 1 + ending.height
  | .applied _ args ending => 1 + max (listHeight args) ending.height

def Ending.height : Ending → Nat
  | .tail _ => 0
  | .returns types => listHeight types

def listHeight : List TypeExpr → Nat
  | [] => 0
  | e :: es => max e.height (listHeight es)

end

end StorageUpgrade.Identifier
