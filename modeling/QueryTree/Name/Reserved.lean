/-!
# Reserved words

Words that the query language keeps for itself, in any mixture of cases. A variable may still bear
such a name, but only in backticks.
-/

set_option autoImplicit false

namespace QueryTree

/-- The reserved words in capitals, in alphabetical order. -/
def reservedWords : List String :=
  ["AGGREGATE", "ALL", "AND", "ANY", "ASC", "COLLECT", "DESC", "DISTINCT", "FALSE", "FILTER",
    "FOR", "GRAPH", "IN", "INBOUND", "INSERT", "INTO", "K_SHORTEST_PATHS", "LET", "LIKE", "LIMIT",
    "NONE", "NOT", "NULL", "OR", "OUTBOUND", "PRUNE", "REMOVE", "REPLACE", "RETURN", "SEARCH",
    "SHORTEST_PATH", "SORT", "TRUE", "UPDATE", "UPSERT", "WINDOW", "WITH"]

/-- Whether a word is reserved, whatever the case of its letters. Only the letters of ASCII have two
    cases here, so no letter of another script is taken for one of them. -/
def isReserved (word : String) : Bool :=
  reservedWords.any fun reserved => reserved.toList == word.toList.map Char.toUpper

def backticked (text : List Char) : List Char := '\x60' :: text ++ ['\x60']

/-- A variable's name in query text: bare, or in backticks when it is reserved. -/
def variableChars (name : String) : List Char :=
  if isReserved name then backticked name.toList else name.toList

end QueryTree
