import ScriptFront.Proofs.Lexer.Printed
import ScriptFront.Proofs.Printing.Regroup
import ScriptFront.Proofs.Tree.Leaves

/-!
# Printed forms as lists of characters

* `Text.joined` — texts one after the other with a separator between neighbours.
* `Expr.text`, `Block.text`, `Stmt.text` — the characters of a printed form, with one equation for
  each kind of node.
* `Expr.text_eq_head_links` — the text of an expression is that of its head and of what goes on
  behind.
* `Expr.commas_flatMap_items` — a list is printed like the list of its items.
* `Expr.render_regroup` — regrouping leaves the printed form as it is.
-/

namespace ScriptFront

/-! ## Joining -/

namespace Text

/-- Texts with a separator in front of each. -/
def behind (separator : List Char) (texts : List (List Char)) : List Char :=
  texts.flatMap (separator ++ ·)

/-- Texts with a separator between neighbours. -/
def joined (separator : List Char) : List (List Char) → List Char
  | [] => []
  | first :: rest => first ++ behind separator rest

variable {separator : List Char}

/-- No texts stand behind nothing. -/
@[simp] theorem behind_nil : behind separator [] = [] := rfl

/-- In front of the first text stands the separator. -/
@[simp] theorem behind_cons (first : List Char) (rest : List (List Char)) :
    behind separator (first :: rest) = separator ++ (first ++ behind separator rest) := by
  simp [behind]

/-- Texts behind others have their separators too. -/
@[simp] theorem behind_append (texts more : List (List Char)) :
    behind separator (texts ++ more) = behind separator texts ++ behind separator more :=
  List.flatMap_append

/-- No texts are joined to the empty one. -/
@[simp] theorem joined_nil : joined separator [] = [] := rfl

/-- The first text has no separator in front, and the others have. -/
@[simp] theorem joined_cons (first : List Char) (rest : List (List Char)) :
    joined separator (first :: rest) = first ++ behind separator rest := rfl

/-- With the separator in front of all, there is one in front of the whole. -/
theorem behind_eq_append_joined {texts : List (List Char)} (h : texts ≠ []) :
    behind separator texts = separator ++ joined separator texts := by
  obtain ⟨first, rest, rfl⟩ := List.exists_cons_of_ne_nil h
  simp

/-- What is alike with the separator in front of all is alike with it between neighbours. -/
theorem joined_congr {texts more : List (List Char)} (hne : separator ≠ [])
    (h : behind separator texts = behind separator more) :
    joined separator texts = joined separator more := by
  cases texts <;> cases more <;> simp_all

/-- Texts that are themselves joined of parts are joined like all the parts. -/
theorem joined_flatMap {α : Type} {parts : α → List (List Char)} {whole : α → List Char}
    {values : List α} (hne : separator ≠ []) (hparts : ∀ a ∈ values, parts a ≠ [])
    (hwhole : ∀ a ∈ values, joined separator (parts a) = whole a) :
    joined separator (values.flatMap parts) = joined separator (values.map whole) := by
  apply joined_congr hne
  induction values with
  | nil => rfl
  | cons a values ih =>
    rw [List.forall_mem_cons] at hparts hwhole
    rw [List.flatMap_cons, behind_append, behind_eq_append_joined hparts.1, hwhole.1,
      ih hparts.2 hwhole.2, List.map_cons, behind_cons, List.append_assoc]

/-- The characters of joined texts are the joined characters. -/
theorem toList_joinWith (separator : String) (texts : List String) :
    (joinWith separator texts).toList = joined separator.toList (texts.map String.toList) := by
  cases texts with
  | nil => rfl
  | cons first rest => simp [toList_joinWith_cons, behind, List.flatMap_map]

end Text

/-! ## The characters of printed forms -/

/-- The characters of the printed form of an expression. -/
def Expr.text (e : Expr) : List Char :=
  e.render.toList

/-- The characters of the printed form of a block. -/
def Block.text (b : Block) : List Char :=
  b.render.toList

/-- The characters of the printed form of a clause. -/
def CaseClause.text (c : CaseClause) : List Char :=
  c.render.toList

/-- The characters of the printed form of a case. -/
def MatchCase.text (c : MatchCase) : List Char :=
  c.render.toList

/-- The characters of the printed form of a statement. -/
def Stmt.text (s : Stmt) : List Char :=
  s.render.toList

/-- The characters of an expression that may be missing. -/
def Expr.text? : Option Expr → List Char
  | none => []
  | some e => e.text

/-- Items with commas between them. -/
def commas (texts : List (List Char)) : List Char :=
  Text.joined [',', ' '] texts

/-- The characters of a name. -/
def Identifier.text (id : Identifier) : List Char :=
  id.name.toList

/-- The characters of a key and its value. -/
def Expr.pairText (pair : Expr × Expr) : List Char :=
  pair.1.text ++ ':' :: ' ' :: pair.2.text

/-- The characters of a member and its value. -/
def Stmt.memberText (member : Identifier × Expr) : List Char :=
  member.1.text ++ ' ' :: '=' :: ' ' :: member.2.text

/-- The characters of a parameter, with its default if it has one. -/
def Defaults.parameterText (defaults : Defaults) (id : Identifier) : List Char :=
  id.text ++
    match defaults.find? id.name with
    | none => []
    | some value => ' ' :: '=' :: ' ' :: value.text

/-- The characters of what goes on behind an expression. -/
def Link.text : Link → List Char
  | .member name => '.' :: name.text
  | .arguments values => '(' :: (commas (values.map Expr.text) ++ [')'])

/-- The printed forms of expressions, as characters. -/
theorem Expr.map_renderEach (es : List Expr) :
    (Expr.renderEach es).map String.toList = es.map Expr.text := by
  induction es with
  | nil => rfl
  | cons e es ih => simp [Expr.renderEach, Expr.text, ih]

/-- Expressions are printed with commas between them. -/
theorem Expr.toList_joinWith_renderEach (es : List Expr) :
    (Text.joinWith ", " (Expr.renderEach es)).toList = commas (es.map Expr.text) := by
  rw [Text.toList_joinWith, Expr.map_renderEach]
  rfl

/-- Pairs are printed with commas between them. -/
theorem Expr.toList_joinWith_renderPairs (pairs : List (Expr × Expr)) :
    (Text.joinWith ", " (Expr.renderPairs pairs)).toList = commas (pairs.map Expr.pairText) := by
  have hmap : (Expr.renderPairs pairs).map String.toList = pairs.map Expr.pairText := by
    induction pairs with
    | nil => rfl
    | cons pair pairs ih => simp [Expr.renderPairs, Expr.pairText, Expr.text, ih]
  rw [Text.toList_joinWith, hmap]
  rfl

/-- Members are printed with commas between them. -/
theorem Stmt.toList_joinWith_renderMembers (members : List (Identifier × Expr)) :
    (Text.joinWith ", " (Stmt.renderMembers members)).toList =
      commas (members.map Stmt.memberText) := by
  have hmap : (Stmt.renderMembers members).map String.toList = members.map Stmt.memberText := by
    induction members with
    | nil => rfl
    | cons member members ih =>
      simp [Stmt.renderMembers, Stmt.memberText, Expr.text, Identifier.text, ih]
  rw [Text.toList_joinWith, hmap]
  rfl

/-- An enumeration is its word, its name and its members in braces. -/
@[simp] theorem Stmt.text_enumeration (token : Token) (id : Identifier)
    (members : List (Identifier × Expr)) :
    (Stmt.enumeration token id members).text =
      "enum ".toList ++ (id.text ++ ' ' :: '\x7b' :: ' ' ::
        (commas (members.map Stmt.memberText) ++ [' ', '\x7d'])) := by
  simp [Stmt.text, Stmt.render, Stmt.toList_joinWith_renderMembers, Identifier.text]

/-- Names are printed with commas between them. -/
theorem toList_renderNames (names : List Identifier) :
    (renderNames names).toList = commas (names.map Identifier.text) := by
  rw [renderNames, Text.toList_joinWith, List.map_map]
  rfl

/-- The printed default of a name is that of the expression found under it. -/
theorem Expr.lookup_renderDefaults (defaults : Defaults) (name : String) :
    (Expr.renderDefaults defaults).lookup name = (defaults.find? name).map Expr.render := by
  induction defaults with
  | nil => rfl
  | cons entry defaults ih =>
    obtain ⟨key, value⟩ := entry
    rw [Expr.renderDefaults, List.lookup_cons, Defaults.find?_cons, ih]
    by_cases h : name = key
    · simp [h]
    · simp [h, beq_false_of_ne h]

/-- A parameter is printed with the default of its name, if there is one. -/
theorem Defaults.toList_parameter (defaults : Defaults) (id : Identifier) :
    (id.name ++ match (Expr.renderDefaults defaults).lookup id.name with
      | none => ""
      | some value => " = " ++ value).toList = defaults.parameterText id := by
  rw [Expr.lookup_renderDefaults, parameterText]
  cases defaults.find? id.name <;> simp [Identifier.text, Expr.text]

/-! ### One equation for each kind of node -/

section Equations

variable (token dot path : Token) (id name : Identifier) (e left right value : Expr) (b : Block)
  (es : List Expr) (operator counter : String)

namespace Expr

/-- A name is printed as it is. -/
@[simp] theorem text_identifier : (identifier id).text = id.text := rfl

/-- An integer is printed as its token is written. -/
@[simp] theorem text_integer (n : Int) : (integer token n).text = token.value.toList := rfl

/-- A number with a fraction is printed as its token is written. -/
@[simp] theorem text_float (n : Numeral.Double) : (float token n).text = token.value.toList := rfl

/-- A string is printed in quotes, with escapes. -/
@[simp] theorem text_string (s : String) : (string token s).text = Text.quoteChars s.toList := by
  simp [text, render, Text.quote]

/-- The word for what is true. -/
@[simp] theorem text_true : (boolean token true).text = "true".toList := rfl

/-- The word for what is false. -/
@[simp] theorem text_false : (boolean token false).text = "false".toList := rfl

/-- The word for nothing. -/
@[simp] theorem text_null : (null token).text = "null".toList := rfl

/-- The sign of the receiver. -/
@[simp] theorem text_receiver : (receiver token).text = ['@'] := by
  simp [text, render]

/-- An array is its elements in brackets. -/
@[simp] theorem text_array : (array token es).text = '[' :: (commas (es.map text) ++ [']']) := by
  simp [text, render, toList_joinWith_renderEach]

/-- A dict is its pairs in braces. -/
@[simp] theorem text_dict (pairs : List (Expr × Expr)) :
    (dict token pairs).text = '\x7b' :: (commas (pairs.map pairText) ++ ['\x7d']) := by
  simp [text, render, toList_joinWith_renderPairs]

/-- An array pattern is its items in brackets, the rest element last. -/
@[simp] theorem text_arrayPattern (rest : Option Identifier) :
    (arrayPattern token es rest).text =
      '[' :: (commas (es.map text ++ rest.toList.map fun id => '.' :: '.' :: '.' :: id.text) ++
        [']']) := by
  cases rest <;>
    simp [text, render, Text.toList_joinWith, map_renderEach, commas, Identifier.text]

/-- A spread is three points and its name. -/
@[simp] theorem text_spread : (spread token id).text = '.' :: '.' :: '.' :: id.text := by
  simp [text, render, Identifier.text]

/-- An operator in front of its operand, in parentheses. -/
@[simp] theorem text_unary :
    (unary token operator right).text = '(' :: (operator.toList ++ (right.text ++ [')'])) := by
  simp [text, render]

/-- An operator between its operands, with spaces, in parentheses. -/
@[simp] theorem text_binary :
    (binary token left operator right).text =
      '(' :: (left.text ++ ' ' :: (operator.toList ++ ' ' :: (right.text ++ [')']))) := by
  simp [text, render]

/-- The token and the operator behind it, in parentheses. -/
@[simp] theorem text_step :
    (step token operator).text = '(' :: (token.value.toList ++ (operator.toList ++ [')'])) := by
  simp [text, render]

/-- Two points between the bounds, in parentheses. -/
@[simp] theorem text_range :
    (range token left right).text = '(' :: (left.text ++ '.' :: '.' :: (right.text ++ [')'])) := by
  simp [text, render]

/-- An assignment to a name, in parentheses. -/
@[simp] theorem text_assign :
    (assign token id value).text =
      '(' :: (id.text ++ ' ' :: ("=".toList ++ ' ' :: (value.text ++ [')']))) := by
  simp [text, render, Identifier.text]

/-- An assignment to a name that computes at once, in parentheses. -/
@[simp] theorem text_compoundAssign :
    (compoundAssign token id operator value).text =
      '(' :: (id.text ++ ' ' :: (operator.toList ++ ' ' :: (value.text ++ [')']))) := by
  simp [text, render, Identifier.text]

/-- An assignment to an index, in parentheses. -/
@[simp] theorem text_indexAssign :
    (indexAssign token left operator value).text =
      '(' :: (left.text ++ ' ' :: (operator.toList ++ ' ' :: (value.text ++ [')']))) := by
  simp [text, render]

/-- An assignment to a property, in parentheses. -/
@[simp] theorem text_propertyAssign :
    (propertyAssign token dot e id operator value).text =
      '(' :: (e.text ++ '.' ::
        (id.text ++ ' ' :: (operator.toList ++ ' ' :: (value.text ++ [')'])))) := by
  simp [text, render, Identifier.text]

/-- A call is what is called and its arguments in parentheses. -/
@[simp] theorem text_call :
    (call token e es).text = e.text ++ '(' :: (commas (es.map text) ++ [')']) := by
  simp [text, render, toList_joinWith_renderEach]

/-- An index is in brackets behind what is indexed, all in parentheses. -/
@[simp] theorem text_index :
    (index token left right).text = '(' :: (left.text ++ '[' :: (right.text ++ [']', ')'])) := by
  simp [text, render]

/-- A slice has its bounds in brackets, with a colon between them, all in parentheses. -/
@[simp] theorem text_slice (start stop : Option Expr) :
    (slice token left start stop).text =
      '(' :: (left.text ++ '[' :: (text? start ++ ':' :: (text? stop ++ [']', ')']))) := by
  cases start <;> cases stop <;> simp [text, text?, render, render?]

/-- A property is its name behind a point. -/
@[simp] theorem text_property : (property token e id).text = e.text ++ '.' :: id.text := by
  simp [text, render, Identifier.text]

/-- A method is its name behind a point and its arguments in parentheses. -/
@[simp] theorem text_method :
    (method token e id es).text =
      e.text ++ '.' :: (id.text ++ '(' :: (commas (es.map text) ++ [')'])) := by
  simp [text, render, toList_joinWith_renderEach, Identifier.text]

/-- A conditional without an alternative. -/
@[simp] theorem text_conditional :
    (conditional token e b none).text = "if (".toList ++ (e.text ++ ')' :: ' ' :: b.text) := by
  simp [text, Block.text, render, Block.render?]

/-- A conditional with an alternative. -/
@[simp] theorem text_conditional_else (other : Block) :
    (conditional token e b (some other)).text =
      "if (".toList ++ (e.text ++ ')' :: ' ' :: (b.text ++ (" else ".toList ++ other.text))) := by
  simp [text, Block.text, render, Block.render?]

/-- A `while` loop is its word, its condition in parentheses and its block. -/
@[simp] theorem text_whileLoop :
    (whileLoop token e b).text = "while (".toList ++ (e.text ++ ')' :: ' ' :: b.text) := by
  simp [text, Block.text, render]

/-- A `for` loop is its word, its names, what it runs over and its block. -/
@[simp] theorem text_forLoop (key : Option Identifier) :
    (forLoop token key id e b).text =
      "for ".toList ++ (commas ((key.toList ++ [id]).map Identifier.text) ++
        (" in ".toList ++ (e.text ++ ' ' :: b.text))) := by
  cases key <;> simp [text, Block.text, render, Identifier.text, commas]

/-- A `repeat` loop is its word, the name of the round in parentheses, its count and its block. -/
@[simp] theorem text_repeatLoop :
    (repeatLoop token counter e b).text =
      "repeat (".toList ++ (counter.toList ++ ')' :: ' ' :: (e.text ++ ' ' :: b.text)) := by
  simp [text, Block.text, render]

/-- A switch is its word, its subject in parentheses and its clauses in braces. -/
@[simp] theorem text_switch (clauses : List CaseClause) :
    (switch token e clauses).text =
      "switch (".toList ++ (e.text ++ ')' :: ' ' :: '\x7b' :: ' ' ::
        (clauses.flatMap (fun c => c.text ++ [' ']) ++ ['\x7d'])) := by
  have hall : (CaseClause.renderAll clauses).toList = clauses.flatMap fun c => c.text ++ [' '] := by
    induction clauses with
    | nil => rfl
    | cons c clauses ih => simp [CaseClause.renderAll, CaseClause.text, ih]
  simp [text, render, hall]

/-- A match is its word, its subject and its cases in braces. -/
@[simp] theorem text_matching (cases : List MatchCase) :
    (matching token e cases).text =
      "match ".toList ++ (e.text ++ ' ' :: '\x7b' :: ' ' ::
        (commas (cases.map MatchCase.text) ++ [' ', '\x7d'])) := by
  have hmap : (MatchCase.renderEach cases).map String.toList = cases.map MatchCase.text := by
    induction cases with
    | nil => rfl
    | cons c cases ih => simp [MatchCase.renderEach, MatchCase.text, ih]
  simp [text, render, Text.toList_joinWith, hmap, commas]

/-- A function is its word, its name if it has one, its parameters in parentheses and its block. -/
@[simp] theorem text_function (async : Bool) (name : Option Identifier)
    (parameters : List Identifier) (defaults : Defaults) :
    (function async token name parameters defaults b).text =
      (if async then "async func" else "func").toList ++
        ((name.toList.flatMap fun id => ' ' :: id.text) ++ '(' ::
          (commas (parameters.map defaults.parameterText) ++ ')' :: ' ' :: b.text)) := by
  have hparameters := List.map_congr_left fun id (_ : id ∈ parameters) =>
    defaults.toList_parameter id
  cases name <;>
    simp [text, Block.text, render, renderName?, Text.toList_joinWith, commas, Identifier.text] <;>
    exact congrArg (Text.joined [',', ' ']) hparameters

/-- An `await` and its operand, in parentheses. -/
@[simp] theorem text_await : (await token e).text = '(' ::
    ("await ".toList ++ (e.text ++ [')'])) := by
  simp [text, render]

/-- A channel without a size is its word. -/
@[simp] theorem text_channel : (channel token none).text = "chan".toList := rfl

/-- A channel with a size has it in parentheses. -/
@[simp] theorem text_channel_some :
    (channel token (some e)).text = "chan".toList ++ '(' :: (e.text ++ [')']) := by
  simp [text, render]

/-- An import is its word and its names. -/
@[simp] theorem text_importing (names : List Identifier) :
    (importing token names).text = "import ".toList ++ commas (names.map Identifier.text) := by
  simp [text, render, toList_renderNames]

/-- A package is its word, its name and its block. -/
@[simp] theorem text_package :
    (package token id b).text = "package ".toList ++ (id.text ++ ' ' :: b.text) := by
  simp [text, Block.text, render, Identifier.text]

end Expr

/-- A block without statements. -/
@[simp] theorem Block.text_nil : (Block.mk token []).text = "\x7b \x7d".toList := rfl

/-- A block is its statements in braces, with semicolons between them. -/
@[simp] theorem Block.text_cons (s : Stmt) (body : List Stmt) :
    (Block.mk token (s :: body)).text = '\x7b' :: ' ' ::
      (s.text ++ (Text.behind [';', ' '] (body.map Stmt.text) ++ [' ', '\x7d'])) := by
  have hmap : (Stmt.renderEach (s :: body)).map String.toList = (s :: body).map Stmt.text := by
    generalize s :: body = all
    induction all with
    | nil => rfl
    | cons s all ih => simp [Stmt.renderEach, Stmt.text, ih]
  simp [Block.text, Block.render, Text.toList_joinWith, hmap]

/-- The default of a switch is its word and its block. -/
@[simp] theorem CaseClause.text_default :
    (CaseClause.mk token true es b).text = "default ".toList ++ b.text := by
  simp [CaseClause.text, Block.text, CaseClause.render]

/-- A clause with values is its word, the values and its block. -/
@[simp] theorem CaseClause.text_case :
    (CaseClause.mk token false es b).text =
      "case ".toList ++ (commas (es.map Expr.text) ++ ' ' :: b.text) := by
  simp [CaseClause.text, Block.text, CaseClause.render, Expr.toList_joinWith_renderEach]

/-- A case is its pattern, its condition if it has one, an arrow and its block. -/
@[simp] theorem MatchCase.text_mk (guard : Option Expr) :
    (MatchCase.mk token e guard b).text =
      e.text ++ ((guard.toList.flatMap fun g => " if ".toList ++ g.text) ++
        (" => ".toList ++ b.text)) := by
  cases guard <;> simp [MatchCase.text, Block.text, Expr.text, MatchCase.render, Expr.render?]

namespace Stmt

/-- A declaration is its word, its name and its value. -/
@[simp] theorem text_declaration (constant : Bool) :
    (declaration token id constant e).text =
      (if constant then "const " else "let ").toList ++ (id.text ++ (" = ".toList ++ e.text)) := by
  simp [text, render, Identifier.text, Expr.text]

/-- A `return` without a value is its word. -/
@[simp] theorem text_returning :
    (returning token none).text = "return".toList := by
  simp [text, render, Expr.render?]

/-- A `return` with a value is its word and the value. -/
@[simp] theorem text_returning_some :
    (returning token (some e)).text = "return".toList ++ ' ' :: e.text := by
  simp [text, render, Expr.render?, Expr.text]

/-- A `break` is its word. -/
@[simp] theorem text_breaking : (breaking token).text = "break".toList := rfl

/-- A `continue` is its word. -/
@[simp] theorem text_continuing : (continuing token).text = "continue".toList := rfl

/-- An `include` is its word and a string. -/
@[simp] theorem text_including (s : String) :
    (including token path s).text = "include ".toList ++ Text.quoteChars s.toList := by
  simp [text, render, Text.quote]

/-- A block that stands alone is printed as the block. -/
@[simp] theorem text_block : (block b).text = b.text := rfl

/-- The declaration of an error is its word, its name and its parameters. -/
@[simp] theorem text_errorDeclaration (parameters : List Identifier) :
    (errorDeclaration token id parameters).text =
      "error ".toList ++ (id.text ++ '(' :: (commas (parameters.map Identifier.text) ++
        [')'])) := by
  simp [text, render, toList_renderNames, Identifier.text]

/-- A word that takes one expression is printed in front of it. -/
@[simp] theorem text_declarative (word : Declarative) :
    (declarative token word e).text = word.keyword.toList ++ ' ' :: e.text := by
  simp [text, render, Expr.text]

/-- A `go` is its word and its expression. -/
@[simp] theorem text_go : (go token e).text = "go ".toList ++ e.text := by
  simp [text, render, Expr.text]

/-- An expression that stands alone is printed as the expression. -/
@[simp] theorem text_expression : (expression token e).text = e.text := rfl

end Stmt

end Equations

/-! ## Heads, links and items -/

namespace Expr

variable {e : Expr} {es : List Expr} {l : Link} {token : Token}

/-- What goes on behind an expression is printed behind it. -/
theorem text_link : (e.link l).text = e.text ++ l.text := by
  cases l with
  | member name => simp [link, Link.text]
  | arguments values =>
    simp only [link, Link.text]
    fun_cases applied values e <;> simp [commas]

/-- An expression is printed as its head and what goes on behind. -/
theorem text_eq_head_links (e : Expr) : e.text = e.head.text ++ e.links.flatMap Link.text := by
  fun_induction head e with
  | case1 _ callee values ih => simp [links, ih, Link.text]
  | case2 _ object name ih => simp [links, ih, Link.text]
  | case3 _ object name values ih => simp [links, ih, Link.text]
  | case4 token size => cases size <;> simp [links, Link.text, commas]
  | case5 e _ _ _ _ =>
    have hself : e.head = e := by rw [head] <;> assumption
    have hlinks := links_head e
    rw [hself] at hlinks
    simp [hlinks]

/-- What goes on behind an expression, link by link, is printed behind it. -/
theorem text_foldl_link (ls : List Link) (e : Expr) :
    (ls.foldl link e).text = e.text ++ ls.flatMap Link.text := by
  induction ls generalizing e with
  | nil => simp
  | cons l ls ih => simp [ih, text_link]

/-- Behind the first name of an import there is an item for each other name, and one at least. -/
theorem itemsBehind_ne_nil (ls : List Link) (name : Identifier) (rest : List Identifier) :
    itemsBehind ls name rest ≠ [] := by
  cases rest <;> simp [itemsBehind]

/-- Every expression has an item. -/
theorem items_ne_nil (e : Expr) : e.items ≠ [] := by
  unfold items
  split <;> simp

/-- Items behind the first name of an import are printed as the names and what goes on. -/
theorem commas_itemsBehind (ls : List Link) (name : Identifier) (rest : List Identifier) :
    commas ((itemsBehind ls name rest).map text) =
      commas ((name :: rest).map Identifier.text) ++ ls.flatMap Link.text := by
  induction rest generalizing name with
  | nil => simp [itemsBehind, commas, text_foldl_link]
  | cons next rest ih =>
    have hrest : Text.behind [',', ' '] ((itemsBehind ls next rest).map text) =
        [',', ' '] ++ Text.joined [',', ' '] ((itemsBehind ls next rest).map text) :=
      Text.behind_eq_append_joined (by simp [itemsBehind_ne_nil])
    have hnext := ih next
    simp only [commas] at hnext
    simp only [itemsBehind, commas, List.map_cons, Text.joined_cons, hrest, hnext, text_identifier,
      Text.behind_cons, List.append_assoc]

/-- In a list, an expression is printed like its items. -/
theorem commas_items (e : Expr) : commas (e.items.map text) = e.text := by
  unfold items
  split
  · next token first next rest hhead =>
    have hrest : Text.behind [',', ' '] ((itemsBehind e.links next rest).map text) =
        [',', ' '] ++ Text.joined [',', ' '] ((itemsBehind e.links next rest).map text) :=
      Text.behind_eq_append_joined (by simp [itemsBehind_ne_nil])
    have hnext := commas_itemsBehind e.links next rest
    rw [text_eq_head_links e, hhead]
    simp only [commas] at hnext
    simp [commas, hrest, hnext]
  · simp [commas]

/-- A list is printed like the list of its items. -/
theorem commas_flatMap_items (es : List Expr) :
    commas ((es.flatMap items).map text) = commas (es.map text) := by
  rw [List.map_flatMap]
  exact Text.joined_flatMap (by simp) (fun e _ => by simp [items_ne_nil]) fun e _ => commas_items e

end Expr

/-! ## Regrouping -/

mutual

/-- Regrouping leaves the printed form of an expression. -/
theorem Expr.text_regroup : (e : Expr) → e.regroup.text = e.text
  | .identifier _ | .integer _ _ | .float _ _ | .string _ _ | .boolean _ _ | .null _ | .receiver _
  | .spread _ _ | .step _ _ | .channel _ none | .importing _ _ => rfl
  | .array _ elements => by
    simp only [Expr.regroup, Expr.text_array, commas,
      Text.joined_congr (by simp) (Expr.behind_regroupEach elements)]
  | .dict _ pairs => by simp only [Expr.regroup, Expr.text_dict, Expr.map_regroupPairs pairs]
  | .arrayPattern _ elements rest => by
    have helements := Expr.behind_regroupEach elements
    have hrest : (rest.toList.map fun id => Expr.spread id.token id).map Expr.text =
        rest.toList.map fun id => '.' :: '.' :: '.' :: id.text := by
      cases rest <;> simp
    simp only [Expr.regroup, Expr.text_array, Expr.text_arrayPattern, commas,
      List.map_append, hrest]
    rw [Text.joined_congr (by simp)]
    simp only [Text.behind_append, helements]
  | .unary _ _ right => by simp only [Expr.regroup, Expr.text_unary, right.text_regroup]
  | .binary _ left _ right => by
    simp only [Expr.regroup, Expr.text_binary, left.text_regroup, right.text_regroup]
  | .range _ start stop => by
    simp only [Expr.regroup, Expr.text_range, start.text_regroup, stop.text_regroup]
  | .assign _ _ value => by simp only [Expr.regroup, Expr.text_assign, value.text_regroup]
  | .compoundAssign _ _ _ value => by
    simp only [Expr.regroup, Expr.text_compoundAssign, value.text_regroup]
  | .indexAssign _ target _ value => by
    simp only [Expr.regroup, Expr.text_indexAssign, target.text_regroup, value.text_regroup]
  | .propertyAssign _ _ object _ _ value => by
    simp only [Expr.regroup, Expr.text_propertyAssign, object.text_regroup, value.text_regroup]
  | .call _ function arguments => by
    simp only [Expr.regroup, Expr.text_link, Expr.text_call, Link.text,
      function.text_regroup, commas,
      Text.joined_congr (by simp) (Expr.behind_regroupEach arguments)]
  | .index _ left index => by
    simp only [Expr.regroup, Expr.text_index, left.text_regroup, index.text_regroup]
  | .slice _ left start stop => by
    simp only [Expr.regroup, Expr.text_slice, left.text_regroup, Expr.text_regroup? start,
      Expr.text_regroup? stop]
  | .property _ object _ => by
    simp only [Expr.regroup, Expr.text_link, Expr.text_property, Link.text, object.text_regroup]
  | .method _ object _ arguments => by
    simp only [Expr.regroup, Expr.text_link, Expr.text_method, Link.text,
      object.text_regroup, commas,
      Text.joined_congr (by simp) (Expr.behind_regroupEach arguments), List.append_assoc,
      List.cons_append]
  | .conditional _ condition consequence none => by
    simp only [Expr.regroup, Block.regroup?, Expr.text_conditional, condition.text_regroup,
      consequence.text_regroup]
  | .conditional _ condition consequence (some alternative) => by
    simp only [Expr.regroup, Block.regroup?, Expr.text_conditional_else, condition.text_regroup,
      consequence.text_regroup, alternative.text_regroup]
  | .whileLoop _ condition body => by
    simp only [Expr.regroup, Expr.text_whileLoop, condition.text_regroup, body.text_regroup]
  | .forLoop _ _ _ iterable body => by
    simp only [Expr.regroup, Expr.text_forLoop, iterable.text_regroup, body.text_regroup]
  | .repeatLoop _ _ count body => by
    simp only [Expr.regroup, Expr.text_repeatLoop, count.text_regroup, body.text_regroup]
  | .switch _ subject cases => by
    simp only [Expr.regroup, Expr.text_switch, subject.text_regroup, List.flatMap,
      CaseClause.map_regroupEach cases]
  | .matching _ subject cases => by
    simp only [Expr.regroup, Expr.text_matching, subject.text_regroup,
      MatchCase.map_regroupEach cases]
  | .function _ _ _ _ defaults body => by
    simp only [Expr.regroup, Expr.text_function, body.text_regroup,
      funext (Expr.parameterText_regroupDefaults defaults)]
  | .await _ value => by simp only [Expr.regroup, Expr.text_await, value.text_regroup]
  | .channel _ (some size) => by
    simp only [Expr.regroup, Expr.text_link, Expr.text_channel, Expr.text_channel_some, Link.text,
      Expr.commas_items, size.text_regroup]
  | .package _ _ body => by simp only [Expr.regroup, Expr.text_package, body.text_regroup]
termination_by structural tree => tree

/-- Regrouping leaves the printed form of the expressions of a list. -/
theorem Expr.behind_regroupEach : (es : List Expr) →
    Text.behind [',', ' '] ((Expr.regroupEach es).map Expr.text) =
      Text.behind [',', ' '] (es.map Expr.text)
  | [] => rfl
  | e :: rest => by
    have hitems := Expr.commas_items e.regroup
    rw [e.text_regroup, commas] at hitems
    rw [Expr.regroupEach, List.map_append, Text.behind_append, Expr.behind_regroupEach rest,
      Text.behind_eq_append_joined (by simp [Expr.items_ne_nil]), hitems, List.map_cons,
      Text.behind_cons, List.append_assoc]
termination_by structural trees => trees

/-- Regrouping leaves the printed form of pairs. -/
theorem Expr.map_regroupPairs : (pairs : List (Expr × Expr)) →
    (Expr.regroupPairs pairs).map Expr.pairText = pairs.map Expr.pairText
  | [] => rfl
  | (key, value) :: rest => by
    simp only [Expr.regroupPairs, List.map_cons, Expr.pairText, key.text_regroup,
      value.text_regroup,
      Expr.map_regroupPairs rest]
termination_by structural trees => trees

/-- Regrouping leaves the printed form of parameters with their defaults. -/
theorem Expr.parameterText_regroupDefaults : (defaults : List (String × Expr)) →
    ∀ id, Defaults.parameterText (Expr.regroupDefaults defaults) id =
      Defaults.parameterText defaults id
  | [] => fun _ => rfl
  | (name, value) :: rest => by
    intro id
    have hrest := Expr.parameterText_regroupDefaults rest id
    simp only [Expr.regroupDefaults, Defaults.parameterText, Defaults.find?_cons] at hrest ⊢
    by_cases h : id.name = name
    · simp only [if_pos h, value.text_regroup]
    · simp only [if_neg h]
      exact hrest
termination_by structural trees => trees

/-- Regrouping leaves the printed form of an expression that may be missing. -/
theorem Expr.text_regroup? : (e : Option Expr) → Expr.text? (Expr.regroup? e) = Expr.text? e
  | none => rfl
  | some e => e.text_regroup
termination_by structural tree => tree

/-- Regrouping leaves the printed form of a block. -/
theorem Block.text_regroup : (b : Block) → b.regroup.text = b.text
  | ⟨_, []⟩ => rfl
  | ⟨_, s :: body⟩ => by
    simp only [Block.regroup, Stmt.regroupEach, Block.text_cons, s.text_regroup,
      Stmt.map_regroupEach body]
termination_by structural tree => tree

/-- Regrouping leaves the printed form of a clause. -/
theorem CaseClause.text_regroup : (c : CaseClause) → c.regroup.text = c.text
  | ⟨_, true, _, body⟩ => by
    simp only [CaseClause.regroup, CaseClause.text_default, body.text_regroup]
  | ⟨_, false, values, body⟩ => by
    simp only [CaseClause.regroup, CaseClause.text_case, body.text_regroup, commas,
      Text.joined_congr (by simp) (Expr.behind_regroupEach values)]
termination_by structural tree => tree

/-- Regrouping leaves the printed form of clauses. -/
theorem CaseClause.map_regroupEach : (cases : List CaseClause) →
    (CaseClause.regroupEach cases).map (fun c => c.text ++ [' ']) =
      cases.map fun c => c.text ++ [' ']
  | [] => rfl
  | c :: rest => by
    simp only [CaseClause.regroupEach, List.map_cons, c.text_regroup,
      CaseClause.map_regroupEach rest]
termination_by structural trees => trees

/-- Regrouping leaves the printed form of a case. -/
theorem MatchCase.text_regroup : (c : MatchCase) → c.regroup.text = c.text
  | ⟨_, pattern, none, body⟩ => by
    simp only [MatchCase.regroup, Expr.regroup?, MatchCase.text_mk, pattern.text_regroup,
      body.text_regroup]
  | ⟨_, pattern, some guard, body⟩ => by
    simp only [MatchCase.regroup, Expr.regroup?, MatchCase.text_mk, pattern.text_regroup,
      body.text_regroup, Option.toList_some, List.flatMap_singleton, guard.text_regroup]
termination_by structural tree => tree

/-- Regrouping leaves the printed form of cases. -/
theorem MatchCase.map_regroupEach : (cases : List MatchCase) →
    (MatchCase.regroupEach cases).map MatchCase.text = cases.map MatchCase.text
  | [] => rfl
  | c :: rest => by
    simp only [MatchCase.regroupEach, List.map_cons, c.text_regroup, MatchCase.map_regroupEach rest]
termination_by structural trees => trees

/-- Regrouping leaves the printed form of a statement. -/
theorem Stmt.text_regroup : (s : Stmt) → s.regroup.text = s.text
  | .breaking _ | .continuing _ | .including _ _ _ | .errorDeclaration _ _ _
  | .returning _ none => rfl
  | .declaration _ _ _ value => by simp only [Stmt.regroup, Stmt.text_declaration,
      value.text_regroup]
  | .returning _ (some value) => by
    simp only [Stmt.regroup, Expr.regroup?, Stmt.text_returning_some, value.text_regroup]
  | .block inner => inner.text_regroup
  | .enumeration _ _ members => by
    simp only [Stmt.regroup, Stmt.text_enumeration, Stmt.map_regroupMembers members]
  | .declarative _ _ value => by simp only [Stmt.regroup, Stmt.text_declarative, value.text_regroup]
  | .go _ expression => by simp only [Stmt.regroup, Stmt.text_go, expression.text_regroup]
  | .expression _ expression => expression.text_regroup
termination_by structural tree => tree

/-- Regrouping leaves the printed form of statements. -/
theorem Stmt.map_regroupEach : (body : List Stmt) →
    (Stmt.regroupEach body).map Stmt.text = body.map Stmt.text
  | [] => rfl
  | s :: rest => by
    simp only [Stmt.regroupEach, List.map_cons, s.text_regroup, Stmt.map_regroupEach rest]
termination_by structural trees => trees

/-- Regrouping leaves the printed form of the members of an enumeration. -/
theorem Stmt.map_regroupMembers : (members : List (Identifier × Expr)) →
    (Stmt.regroupMembers members).map Stmt.memberText = members.map Stmt.memberText
  | [] => rfl
  | (_, value) :: rest => by
    simp only [Stmt.regroupMembers, List.map_cons, Stmt.memberText, value.text_regroup,
      Stmt.map_regroupMembers rest]
termination_by structural trees => trees

end

end ScriptFront
