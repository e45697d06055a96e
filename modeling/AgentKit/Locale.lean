/-
# Languages of the output

Three languages are supported. Requests are free text such as `pt-BR` or `es_MX`:
case, surrounding white space and the kind of separator do not matter, and what
is not recognised means English.
-/

import AgentKit.Text.Blank
import AgentKit.Text.Lines
import AgentKit.Text.LowerCase

namespace AgentKit

/-- A supported language of the output. -/
inductive Locale where
  | english
  | portuguese
  | spanish
  deriving DecidableEq, Repr

namespace Locale

/-- The supported languages, in the order in which they are listed. -/
def all : List Locale := [.english, .portuguese, .spanish]

/-- The key under which a language is recorded. -/
def key : Locale → String
  | .english => "en"
  | .portuguese => "pt_br"
  | .spanish => "es"

/-- The name of a language in that language. -/
def displayName : Locale → String
  | .english => "English"
  | .portuguese => "Português (Brasil)"
  | .spanish => "Español"

/-- The primary subtag of a language. -/
def subtag : Locale → String
  | .english => "en"
  | .portuguese => "pt"
  | .spanish => "es"

/-- The sentence that is the first rule of every agent. -/
def languageRule : Locale → String
  | .english => "Always reply in English unless told otherwise."
  | .portuguese =>
    "Responda sempre em Português (Brasil), a menos que solicitado o contrário."
  | .spanish => "Responda siempre en Español, a menos que se solicite lo contrario."

/-- The comparable form of a request: trimmed, in lower case, with underscores
for hyphens. -/
def normalize (request : String) : List Char :=
  (Text.lower (Text.trim request.toList)).map fun c => if c = '-' then '_' else c

/-- The language of a request. A key is matched first, then the primary subtag;
a request that matches neither means English. -/
def resolve (request : String) : Locale :=
  let normal := normalize request
  match all.find? (fun locale => locale.key.toList == normal) with
  | some locale => locale
  | none =>
    let language := normal.takeWhile (· != '_')
    (all.find? fun locale => locale.subtag.toList == language).getD .english

end Locale

end AgentKit
