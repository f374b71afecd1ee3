import DataAgent.Agent.Metadata
import DataAgent.Guardrail.Patterns

/-!
# `sql_guardrail.validate`

The check the backend makes of a generated statement before it goes to the MCP server: the twelve rules on the
raw text, then the checks of the demo scope on the clauses that the patterns cut out of it. A rejection carries
the message of `SqlRejectedError`; `int` and `next` have failures of their own.
-/

namespace DataAgent.Guardrail
open Python Regex
open Agent (MetadataContext)

inductive GuardError where
  | sqlRejected (message : String)
  /-- `int` on a count with more digits than the interpreter converts. -/
  | valueError
  /-- `next` on an exhausted generator. -/
  | stopIteration
  deriving DecidableEq, Repr

abbrev Guard := Except GuardError

/-- `if not ok: raise SqlRejectedError(message)`. -/
def require (ok : Bool) (message : String) : Guard Unit :=
  raiseUnless ok (.sqlRejected message)

def text (t : Text) : String := String.ofList t

/-- `str.strip("[]")`. -/
def stripBrackets (identifier : Text) : Text :=
  let bracket : Char → Bool := fun c => c == '[' || c == ']'
  (identifier.dropWhile bracket).rdropWhile bracket

section Helpers
variable (U : Unicode)

/-- The text after the first match of a pattern, up to the next clause keyword. -/
def extractClauseAfter (text : Text) (startPattern : Pattern) : Option Text :=
  (search (isWord U) startPattern text).map fun startMatch =>
    let remainder := startMatch.stop.after
    match search (isWord U) clauseBoundaryPattern remainder with
    | some boundaryMatch => strip (remainder.take boundaryMatch.start.before.length)
    | none => strip remainder

/-- The text after `TOP (n)`, up to the first `FROM`. -/
def extractSelectList (topMatch : Match) : Text :=
  let remainder := topMatch.stop.after
  match search (isWord U) fromKeywordPattern remainder with
  | some fromMatch => strip (remainder.take fromMatch.start.before.length)
  | none => strip remainder

/-- Brackets and whitespace removed, upper case. -/
def normalizePredicate (text : Text) : Text :=
  upper U (((text.filter (· != '[')).filter (· != ']')).filter fun c => !isSpace c)

/-- The loop of `splitTopLevelCommas`: the depth of parentheses, which may be negative, and the current item. -/
def splitLoop : Int → Text → Text → List Text
  | _, current, [] => [current]
  | depth, current, ch :: rest =>
    if ch = '(' then splitLoop (depth + 1) (current ++ [ch]) rest
    else if ch = ')' then splitLoop (depth - 1) (current ++ [ch]) rest
    else if ch = ',' ∧ depth = 0 then current :: splitLoop depth [] rest
    else splitLoop depth (current ++ [ch]) rest

def splitTopLevelCommas (text : Text) : List Text := (splitLoop 0 [] text).map strip

/-! ## Rules 1 to 7 -/

/-- The trims, and rules 1 to 3. -/
def clean (sql : Text) : Guard Text := do
  let cleaned := strip sql
  require (!cleaned.isEmpty) "sql must not be blank"
  let cleaned := if cleaned.getLast? = some ';' then rstrip cleaned.dropLast else cleaned
  require (!cleaned.contains ';') "sql must not contain multiple statements"
  require (!cleaned.contains '\x27') "sql must not contain string literals"
  require (!(hasPair '-' '-' cleaned || hasPair '/' '*' cleaned)) "sql must not contain comments"
  return cleaned

/-- Rules 4 and 5. -/
def checkSelect (cleaned : Text) : Guard Unit := do
  require ((findIter (isWord U) selectPattern cleaned).length = 1) "sql must contain exactly one SELECT"
  require (matchStart (isWord U) startsSelectPattern cleaned).isSome "sql must start with SELECT"
  match search (isWord U) forbiddenPattern cleaned with
  | some m => .error (.sqlRejected
      ("sql must not contain forbidden keyword: " ++ text (upper U ((m.group 1).getD []))))
  | none => return ()

/-- Rules 6 and 7. -/
def checkTop (cleaned : Text) : Guard Match := do
  match matchStart (isWord U) (topPattern U) cleaned with
  | none => .error (.sqlRejected "sql must specify SELECT TOP (n)")
  | some topMatch =>
    match intOf U ((topMatch.group 1).getD []) with
    | none => .error .valueError
    | some topN =>
      require (1 ≤ topN && topN ≤ maximumReturnedRows) "TOP must be between 1 and 100"
      require (!cleaned.contains '*') "sql must not contain '*'"
      return topMatch

/-! ## Rules 8 to 12 -/

/-- The dictionary from table alias to table, in insertion order. -/
abbrev AliasMap := List (Text × Text)

/-- Rules 8 and 9: one step per table reference. -/
def collectTableRefs : AliasMap → List Match → Guard AliasMap
  | tableAliasToTable, [] => .ok tableAliasToTable
  | tableAliasToTable, m :: rest => do
    let name := (m.group 1).getD []
    let tableName := upper U name
    require (allowedTables.contains tableName) ("sql references disallowed table: " ++ text name)
    match m.group 2 with
    | none => .error (.sqlRejected ("table reference " ++ text name ++ " must declare an alias with AS"))
    | some tableAlias =>
      let aliasKey := upper U (stripBrackets tableAlias)
      require (!(tableAliasToTable.map Prod.fst).contains aliasKey)
        ("sql declares the table alias " ++ reprText aliasKey ++ " more than once")
      require (!(tableAliasToTable.map Prod.snd).contains tableName)
        ("sql references table " ++ text name ++ " more than once")
      collectTableRefs (tableAliasToTable ++ [(aliasKey, tableName)]) rest

def withinTableRef (tableRefSpans : List (Nat × Nat)) (pos : Nat) : Bool :=
  tableRefSpans.any fun s => s.1 ≤ pos && pos < s.2

/-- Rule 10: the names after `AS` outside table references. -/
def collectOutputAliases (tableRefSpans : List (Nat × Nat)) : List Match → Guard (List Text)
  | [] => .ok []
  | m :: rest =>
    if withinTableRef tableRefSpans m.span.1 then collectOutputAliases tableRefSpans rest
    else do
      let ident := stripBrackets ((m.group 1).getD [])
      require (allowedOutputAliases.contains ident) ("sql uses an unapproved output alias: " ++ text ident)
      let outputAliases ← collectOutputAliases tableRefSpans rest
      return ident :: outputAliases

/-- Rule 11. -/
def checkIdentifiers (allowedIdentifiers : List Text) : List Match → Guard Unit
  | [] => .ok ()
  | m :: rest => do
    let ident := (m.group 1).getD []
    require (allowedIdentifiers.contains (upper U ident))
      ("sql references an unapproved identifier: " ++ text ident)
    checkIdentifiers allowedIdentifiers rest

def allowedIdentifiers (tableAliasToTable : AliasMap) (outputAliases : List Text) : List Text :=
  reservedWords ++ allowedTables ++ [allowedSchemaToken] ++ tableAliasToTable.map (fun a => upper U a.1) ++
    outputAliases.map (upper U) ++ allowedSourceColumns

/-- Rule 12. -/
def checkOrderBy (cleaned : Text) : Guard Unit := do
  require (search (isWord U) orderByExistsPattern cleaned).isSome "sql must contain ORDER BY"
  require (search (isWord U) orderByFirstKeyPattern cleaned).isSome "the first ORDER BY key must be ProductID ASC"

/-! ## The demo scope -/

/-- `next(alias for alias, table in d.items() if table == name)`. -/
def nextAlias (tableAliasToTable : AliasMap) (name : Text) : Guard Text :=
  match tableAliasToTable.find? fun a => a.2 = name with
  | some a => .ok a.1
  | none => .error .stopIteration

def checkBothTables (tableAliasToTable : AliasMap) : Guard Unit :=
  let missing := allowedTables.filter fun t => !(tableAliasToTable.map Prod.snd).contains t
  require missing.isEmpty ("sql must reference both required tables: " ++ reprList (sorted missing))

def dot (a b : Text) : Text := a ++ ['.'] ++ b

def colProductId : Text := "PRODUCTID".toList
def colName : Text := "NAME".toList
def colSafetyStockLevel : Text := "SAFETYSTOCKLEVEL".toList
def colQuantity : Text := "QUANTITY".toList

/-- `SUM(<alias>.QUANTITY)`. -/
def sumQuantity (inventoryAlias : Text) : Text := "SUM(".toList ++ dot inventoryAlias colQuantity ++ [')']

def allowedOnPredicates (productAlias inventoryAlias : Text) : List Text :=
  [dot productAlias colProductId ++ ['='] ++ dot inventoryAlias colProductId,
    dot inventoryAlias colProductId ++ ['='] ++ dot productAlias colProductId]

def checkOn (productAlias inventoryAlias cleaned : Text) : Guard Unit :=
  match extractClauseAfter U cleaned onKeywordPattern with
  | none => .error (.sqlRejected
      "sql must join Production.Product and Production.ProductInventory on ProductID")
  | some rawOnClause =>
    require ((allowedOnPredicates productAlias inventoryAlias).contains (normalizePredicate U rawOnClause))
      ("the JOIN predicate must be exactly <Product alias>.ProductID = <ProductInventory alias>.ProductID " ++
        "(either order), with no additional condition")

/-- The loop over the group keys; `seen` is the set of their columns so far. -/
def checkGroupKeys (tableAliasToTable : AliasMap) : List Text → List Text → Guard (List Text)
  | seen, [] => .ok seen
  | seen, item :: rest => do
    match matchStart (isWord U) normalizedAliasColumnPattern (normalizePredicate U item) with
    | none => .error (.sqlRejected
        ("sql GROUP BY key is not a simple '<Product alias>.<Column>' reference: " ++ text item))
    | some m =>
      let itemAlias := (m.group 1).getD []
      let itemColumn := (m.group 2).getD []
      require (tableAliasToTable.lookup itemAlias = some tblProduct)
        ("sql GROUP BY key must use the Production.Product alias: " ++ text item)
      require (requiredGroupByColumns.contains itemColumn)
        ("sql GROUP BY key references an unapproved column: " ++ text item)
      require (!seen.contains itemColumn) ("sql GROUP BY key " ++ reprText itemColumn ++ " appears more than once")
      checkGroupKeys tableAliasToTable (seen ++ [itemColumn]) rest

def checkGroupBy (tableAliasToTable : AliasMap) (cleaned : Text) : Guard Unit := do
  let groupByOccurrences := (findIter (isWord U) groupByKeywordPattern cleaned).length
  require (groupByOccurrences != 0) "sql must contain GROUP BY"
  require (!(1 < groupByOccurrences)) "sql must not contain more than one GROUP BY clause"
  let rawGroupByClause := extractClauseAfter U cleaned groupByKeywordPattern
  let groupByItems := splitTopLevelCommas (rawGroupByClause.getD [])
  require (groupByItems.length = requiredGroupByColumns.length)
    ("sql GROUP BY clause must contain exactly 3 approved group keys: " ++
      "<Product alias>.ProductID, <Product alias>.Name, <Product alias>.SafetyStockLevel")
  let seen ← checkGroupKeys U tableAliasToTable [] groupByItems
  let missing := requiredGroupByColumns.filter fun c => !seen.contains c
  require missing.isEmpty ("sql GROUP BY clause is missing required keys: " ++ reprList (sorted missing))

def allowedHavingPredicate (productAlias inventoryAlias : Text) : Text :=
  sumQuantity inventoryAlias ++ ['<'] ++ dot productAlias colSafetyStockLevel

def checkHaving (productAlias inventoryAlias cleaned : Text) : Guard Unit :=
  match extractClauseAfter U cleaned havingKeywordPattern with
  | none => .error (.sqlRejected
      ("sql must filter with HAVING SUM(<ProductInventory alias>.Quantity) < " ++
        "<Product alias>.SafetyStockLevel (below safety stock)"))
  | some rawHavingClause =>
    require (normalizePredicate U rawHavingClause = allowedHavingPredicate productAlias inventoryAlias)
      ("the HAVING clause must be exactly SUM(<ProductInventory alias>.Quantity) < " ++
        "<Product alias>.SafetyStockLevel, with no additional condition")

/-- The dictionary from output alias to the expression it must be bound to. -/
def expectedExprByAlias (productAlias inventoryAlias : Text) : List (Text × Text) :=
  [(colProductId, dot productAlias colProductId), (colName, dot productAlias colName),
    ("CURRENTINVENTORY".toList, sumQuantity inventoryAlias),
    (colSafetyStockLevel, dot productAlias colSafetyStockLevel)]

/-- The loop over the select items; `seen` is the set of their aliases so far. -/
def checkSelectItems (expected : List (Text × Text)) : List Text → List Text → Guard (List Text)
  | seen, [] => .ok seen
  | seen, item :: rest => do
    match matchStart (isWord U) selectItemPattern item with
    | none => .error (.sqlRejected
        ("sql SELECT list item is not a valid '<expression> AS <alias>' form: " ++ text item))
    | some m =>
      let outputAlias := (m.group 2).getD []
      let aliasKey := upper U (stripBrackets outputAlias)
      match expected.lookup aliasKey with
      | none => .error (.sqlRejected ("sql uses an unapproved output alias: " ++ text outputAlias))
      | some expectedExpr =>
        require (!seen.contains aliasKey)
          ("sql declares the output alias " ++ reprText aliasKey ++ " more than once")
        require (normalizePredicate U ((m.group 1).getD []) = expectedExpr)
          ("output alias " ++ text aliasKey ++ " must be bound to exactly " ++ text expectedExpr)
        checkSelectItems expected (seen ++ [aliasKey]) rest

def checkSelectList (productAlias inventoryAlias : Text) (topMatch : Match) : Guard Unit := do
  let expected := expectedExprByAlias productAlias inventoryAlias
  let selectItems := splitTopLevelCommas (extractSelectList U topMatch)
  require (selectItems.length = expected.length)
    "sql SELECT list must contain exactly 4 approved output expressions"
  let seen ← checkSelectItems U expected [] selectItems
  let missing := (expected.map Prod.fst).filter fun a => !seen.contains a
  require missing.isEmpty ("sql is missing required output aliases: " ++ reprList (sorted missing))

/-- The statement as it will be sent, or why it is refused. The context is not read. -/
def validate (sql : Text) (_context : MetadataContext) : Guard Text := do
  let cleaned ← clean sql
  checkSelect U cleaned
  let topMatch ← checkTop U cleaned
  let tableRefs := findIter (isWord U) tableRefPattern cleaned
  let tableAliasToTable ← collectTableRefs U [] tableRefs
  require (!tableRefs.isEmpty) "sql must reference FROM/JOIN"
  let outputAliases ← collectOutputAliases (tableRefs.map Match.span) (findIter (isWord U) asPattern cleaned)
  checkIdentifiers U (allowedIdentifiers U tableAliasToTable outputAliases)
    (findIter (isWord U) identifierPattern cleaned)
  checkOrderBy U cleaned
  checkBothTables tableAliasToTable
  let productAlias ← nextAlias tableAliasToTable tblProduct
  let inventoryAlias ← nextAlias tableAliasToTable tblProductInventory
  checkOn U productAlias inventoryAlias cleaned
  checkGroupBy U tableAliasToTable cleaned
  checkHaving U productAlias inventoryAlias cleaned
  checkSelectList U productAlias inventoryAlias topMatch
  return cleaned

end Helpers

/-! ## A statement of the demo -/

/-- The statement up to its FROM clause. -/
def outputList : Text :=
  ["SELECT TOP 5 p.ProductID AS ProductID, p.Name AS Name, ", "SUM(i.Quantity) AS CurrentInventory, ",
    "p.SafetyStockLevel AS SafetyStockLevel "].flatMap String.toList

/-- The rest of it; `hidden` comes before the `GROUP BY`. -/
def joinAndAfter (hidden : String) : Text :=
  ["FROM Product AS p JOIN ProductInventory AS i ", "ON p.ProductID = i.ProductID ", hidden,
    "GROUP BY p.ProductID, p.Name, p.SafetyStockLevel ", "HAVING SUM(i.Quantity) < p.SafetyStockLevel ",
    "ORDER BY ProductID ASC"].flatMap String.toList

def oneJoin : Text := outputList ++ joinAndAfter ""

theorem validate_oneJoin : validate .small oneJoin {} = .ok oneJoin := by decide +kernel

end DataAgent.Guardrail
