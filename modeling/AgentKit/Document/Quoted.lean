/-
# Quoted text in documents

Text inside a quoted string of a document is escaped. A string on one line
escapes backslashes, double quotes, line feeds, carriage returns and tabs, each
by one backslash and one character. A string on several lines between triple
quotes keeps its line breaks and escapes backslashes and the third quote of
every run of three.
-/

import AgentKit.Text.Substring

namespace AgentKit.Document

/-- The escaped form of a character inside a string on one line. -/
def escapeChar : Char → List Char
  | '\\' => ['\\', '\\']
  | '"' => ['\\', '"']
  | '\n' => ['\\', 'n']
  | '\r' => ['\\', 'r']
  | '\t' => ['\\', 't']
  | c => [c]

/-- The escaped form of a text inside a string on one line. -/
def escape (cs : List Char) : List Char :=
  cs.flatMap escapeChar

/-- `escape` on a string. -/
def escaped (s : String) : String :=
  String.ofList (escape s.toList)

/-- A text as a string on one line, with its quotes. -/
def quoted (s : String) : String :=
  "\"" ++ escaped s ++ "\""

/-- Double every backslash. -/
def doubleBackslashes (cs : List Char) : List Char :=
  Text.replaceAll ['\\'] ['\\', '\\'] cs

/-- The escaped form of a text between triple quotes. Every backslash is doubled
first; the third of three adjacent quotes is escaped after that. -/
def escapeMultiline (cs : List Char) : List Char :=
  Text.replaceAll ['"', '"', '"'] ['"', '"', '\\', '"'] (doubleBackslashes cs)

end AgentKit.Document
