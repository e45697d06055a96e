/-
# Phrases shown to the user

Every phrase of the command line has a dotted key and a wording in each
supported language. A wording may hold places of the form of a name in braces,
which are filled in when the phrase is shown. A key that names no phrase stands
for itself.
-/

import AgentKit.Locale
import AgentKit.Text.Substring

namespace AgentKit

/-- A phrase of the command line. -/
inductive Phrase where
  | loading
  | noAgents
  | installing
  | finished
  | customModesNotice
  | skipped
  | detected
  | nothingToUpgrade
  | upgraded
  | noSettings
  deriving DecidableEq, Repr

namespace Phrase

/-- The phrases, in the order of their tables. -/
def all : List Phrase :=
  [.loading, .noAgents, .installing, .finished, .customModesNotice, .skipped,
   .detected, .nothingToUpgrade, .upgraded, .noSettings]

/-- The key of a phrase. -/
def key : Phrase → String
  | .loading => "install.loading"
  | .noAgents => "install.no_agents"
  | .installing => "install.installing"
  | .finished => "install.finished"
  | .customModesNotice => "install.custom_modes_notice"
  | .skipped => "install.skipped"
  | .detected => "upgrade.detected"
  | .nothingToUpgrade => "upgrade.no_config"
  | .upgraded => "upgrade.success"
  | .noSettings => "view.no_config"

/-- The phrase with a given key. -/
def ofKey? (key : String) : Option Phrase :=
  all.find? (·.key == key)

/-- The English wording of a phrase. -/
def english : Phrase → String
  | .loading => "Loading definitions..."
  | .noAgents => "No valid agents found."
  | .installing => "Installing agents for: \x7btools\x7d"
  | .finished => "Installation finished!"
  | .customModesNotice =>
    "Remember to configure Custom Modes in settings.json for Roo/Cline."
  | .skipped => "Skipped \x7bcount\x7d definition(s); see warnings above."
  | .detected => "Tools detected: \x7btools\x7d"
  | .nothingToUpgrade =>
    "No existing configuration detected for upgrade. Run 'sdd install --tool <name>' first."
  | .upgraded => "Agents updated successfully!"
  | .noSettings => "No .sdd-toolkit/config.yaml yet. Run 'sdd install' to create one."

/-- The Portuguese wording of a phrase. -/
def portuguese : Phrase → String
  | .loading => "Carregando definições..."
  | .noAgents => "Nenhum agente válido encontrado."
  | .installing => "Instalando agentes para: \x7btools\x7d"
  | .finished => "Instalação finalizada!"
  | .customModesNotice =>
    "Lembre-se de configurar os Custom Modes em settings.json para Roo/Cline."
  | .skipped => "\x7bcount\x7d definição(ões) ignorada(s); veja os avisos acima."
  | .detected => "Ferramentas detectadas: \x7btools\x7d"
  | .nothingToUpgrade =>
    "Nenhuma configuração existente detectada. " ++
      "Execute 'sdd install --tool <nome>' primeiro."
  | .upgraded => "Agentes atualizados com sucesso!"
  | .noSettings =>
    "Ainda não existe .sdd-toolkit/config.yaml. Execute 'sdd install' para criá-lo."

/-- The Spanish wording of a phrase. -/
def spanish : Phrase → String
  | .loading => "Cargando definiciones..."
  | .noAgents => "No se encontraron agentes válidos."
  | .installing => "Instalando agentes para: \x7btools\x7d"
  | .finished => "¡Instalación finalizada!"
  | .customModesNotice =>
    "Recuerde configurar los Custom Modes en settings.json para Roo/Cline."
  | .skipped => "Se omitieron \x7bcount\x7d definición(es); vea las advertencias arriba."
  | .detected => "Herramientas detectadas: \x7btools\x7d"
  | .nothingToUpgrade =>
    "No se detectó ninguna configuración existente. " ++
      "Ejecute 'sdd install --tool <nombre>' primero."
  | .upgraded => "¡Agentes actualizados con éxito!"
  | .noSettings =>
    "Todavía no existe .sdd-toolkit/config.yaml. Ejecute 'sdd install' para crearlo."

/-- The wording of a phrase in a language. -/
def wording : Locale → Phrase → String
  | .english => english
  | .portuguese => portuguese
  | .spanish => spanish

/-- The wording that a key has in a language. A key that names no phrase is its
own wording. -/
def lookup (locale : Locale) (key : String) : String :=
  match ofKey? key with
  | some phrase => phrase.wording locale
  | none => key

/-- Write `value` in every place named `name`. -/
def fillPlace (text : List Char) (name value : String) : List Char :=
  Text.replaceAll ('\x7b' :: (name.toList ++ ['\x7d'])) value.toList text

/-- Fill the places of a text, one argument after the other. An argument also
reaches places that an earlier value has brought in. -/
def fill (text : String) (arguments : List (String × String)) : String :=
  String.ofList <| arguments.foldl (fun text (name, value) => fillPlace text name value)
    text.toList

/-- A phrase in a language, with its places filled. -/
def render (locale : Locale) (phrase : Phrase) (arguments : List (String × String)) : String :=
  fill (phrase.wording locale) arguments

end Phrase

end AgentKit
