/-
# Identifiers of an agent

An agent is known by three names. Its stem is the name of its definition file
without the extension. Its slug is the stem with every full stop replaced by a
hyphen. Its skill name is the strict form of the slug: lower-case letters and
digits of ASCII, with one hyphen wherever anything else stood between them.
-/

import AgentKit.Text.Lines
import AgentKit.Text.LowerCase

namespace AgentKit

/-- The slug that belongs to a file stem: every full stop becomes a hyphen. -/
def slugOf (stem : String) : String :=
  String.ofList (stem.toList.map fun c => if c = '.' then '-' else c)

/-- The characters of a skill name other than its hyphens. -/
def isSkillChar (c : Char) : Bool :=
  ('a' ≤ c && c ≤ 'z') || ('0' ≤ c && c ≤ '9')

/-- The maximal runs of skill characters in a text, in order. -/
def skillWords (cs : List Char) : List (List Char) :=
  (Text.splitWhere (fun c => !isSkillChar c) cs).filter (!·.isEmpty)

/-- The skill name of a slug: the words of its lower-case form, joined by single
hyphens. It is empty when there are no words. -/
def skillNameOf (slug : String) : String :=
  String.ofList (['-'].intercalate (skillWords (Text.lower slug.toList)))

end AgentKit
