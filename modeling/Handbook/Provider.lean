import Handbook.Lookup
import Handbook.Settings.Basic

namespace Handbook

structure Provider where
  settings : Settings
  registry : Registry

namespace Provider

variable [Yaml.Wording]

def new (s : Settings) : Provider := ⟨s, .empty⟩

def reloadFrom (p : Provider) (disk : Disk) (sources : List Source) : Provider × Registry.Report :=
  let r := p.registry.reload disk p.settings.language sources
  ({ p with registry := r.1 }, r.2)

def reload (p : Provider) (disk : Disk) : Provider × Registry.Report :=
  p.reloadFrom disk p.settings.allSources

def hover (p : Provider) (text : Text) (line column : Nat) : Option Hover :=
  p.registry.hover p.settings.marker text line column p.settings.hoverLevel

def complete (p : Provider) (text : Text) (column : Nat) : List Suggestion :=
  p.registry.complete p.settings.marker text column p.settings.completionLevel

end Provider

end Handbook
