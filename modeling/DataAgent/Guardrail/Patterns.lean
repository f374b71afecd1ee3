import DataAgent.Regex.Keyword

/-!
# The guardrail's patterns

The constants and compiled patterns of `sql_guardrail`, in its order.
-/

namespace DataAgent.Guardrail
open Python Regex Pattern

/-- `_IDENT`: an identifier, each bracket optional by itself. -/
def ident : Pattern := cat [opt (chr '['), char identStart, many identChar, opt (chr ']')]

/-! ## Constants -/

def maximumReturnedRows : Nat := 100

def forbiddenKeywords : List String :=
  ["WITH", "INSERT", "UPDATE", "DELETE", "MERGE", "EXEC", "EXECUTE", "DROP", "ALTER", "CREATE", "TRUNCATE",
    "GRANT", "REVOKE", "INTO", "UNION", "EXCEPT", "INTERSECT"]

def reservedWords : List Text :=
  ["SELECT", "FROM", "JOIN", "INNER", "LEFT", "ON", "WHERE", "GROUP", "BY", "HAVING", "ORDER", "ASC", "DESC",
    "TOP", "AS", "AND", "OR", "NOT", "IN", "IS", "NULL", "SUM", "COUNT", "AVG", "MIN", "MAX"].map String.toList

def tblProduct : Text := "PRODUCT".toList
def tblProductInventory : Text := "PRODUCTINVENTORY".toList
def allowedTables : List Text := [tblProduct, tblProductInventory]
def allowedSchemaToken : Text := "PRODUCTION".toList

def allowedSourceColumns : List Text :=
  ["PRODUCTID", "NAME", "SAFETYSTOCKLEVEL", "QUANTITY"].map String.toList

def allowedOutputAliases : List Text :=
  ["ProductID", "Name", "CurrentInventory", "SafetyStockLevel"].map String.toList

def requiredGroupByColumns : List Text := ["PRODUCTID", "NAME", "SAFETYSTOCKLEVEL"].map String.toList

/-! ## Patterns -/

section Patterns
variable (U : Unicode)

/-- `\d`. -/
def isDecimal (c : Char) : Bool := (U.decimal c).isSome

def selectPattern : Pattern := keywordPattern "SELECT"
def startsSelectPattern : Pattern := cat [begins, many isSpace, kw "SELECT", wordBoundary]
def forbiddenPattern : Pattern := keywordsPattern forbiddenKeywords

def topPattern : Pattern :=
  cat [begins, many isSpace, kw "SELECT", plus isSpace, kw "TOP", many isSpace, opt (chr '('), many isSpace,
    group 1 (plus (isDecimal U)), many isSpace, opt (chr ')')]

def tableRefPattern : Pattern :=
  cat [wordBoundary, oneOf [kw "FROM", kw "JOIN"], plus isSpace,
    opt (cat [opt (chr '['), kw "Production", opt (chr ']'), chr '.']),
    opt (chr '['), group 1 (cat [char identStart, many identChar]), opt (chr ']'),
    opt (cat [plus isSpace, kw "AS", plus isSpace, group 2 ident])]

def asPattern : Pattern := cat [wordBoundary, kw "AS", plus isSpace, group 1 ident]

/-- Without `re.IGNORECASE`: the classes are those of ASCII alone. -/
def identifierPattern : Pattern :=
  cat [opt (chr '['), group 1 (cat [char fun c => c.isAlpha || c == '_', many fun c => c.isAlphanum || c == '_']),
    opt (chr ']')]

def orderByExistsPattern : Pattern :=
  cat [wordBoundary, kw "ORDER", plus isSpace, kw "BY", wordBoundary]

/-- There is no boundary before `ORDER` in this one. -/
def orderByFirstKeyPattern : Pattern :=
  cat [kw "ORDER", plus isSpace, kw "BY", plus isSpace, opt (cat [ident, chr '.']),
    opt (chr '['), kw "ProductID", opt (chr ']'), plus isSpace, kw "ASC", wordBoundary]

def clauseBoundaryKeywords : List String := ["INNER", "LEFT", "JOIN", "GROUP", "HAVING", "ORDER"]

def clauseBoundaryPattern : Pattern :=
  cat [wordBoundary, oneOf (clauseBoundaryKeywords.map kw), wordBoundary]

def onKeywordPattern : Pattern := keywordPattern "ON"

def groupByKeywordPattern : Pattern :=
  cat [wordBoundary, kw "GROUP", plus isSpace, kw "BY", wordBoundary]

def havingKeywordPattern : Pattern := keywordPattern "HAVING"
def fromKeywordPattern : Pattern := keywordPattern "FROM"

/-- Group 1 is `expr` and group 2 is `alias`. -/
def selectItemPattern : Pattern :=
  cat [begins, group 1 (seq (char fun _ => true) (manyLazy fun _ => true)), wordBoundary, kw "AS", wordBoundary,
    many isSpace, group 2 ident, many isSpace, ends]

def normalizedAliasColumnPattern : Pattern :=
  cat [begins, group 1 (cat [char fun c => c.isUpper || c == '_', many fun c => c.isUpper || c.isDigit || c == '_']),
    chr '.', group 2 (cat [char fun c => c.isUpper || c == '_', many fun c => c.isUpper || c.isDigit || c == '_']),
    ends]

end Patterns

end DataAgent.Guardrail
