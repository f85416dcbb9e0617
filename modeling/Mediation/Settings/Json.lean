import Mediation.Json.Reader.Record
import Mediation.Settings

/-! Settings in JSON. They stand under the key `resolver`, and all of them may be left out. -/

namespace Mediation

namespace Settings

def resolverShape : Json.Shape.OfText Settings where
  title := "struct ResolverConfig"
  blank := {}
  fields := [
    ⟨"absent_branches", .defaulted, fun depth =>
      (fun absentBranches s => { s with absentBranches }) <$>
        Json.Reader.named (AbsentBranches.all.map fun a => (a.name, a)) depth⟩,
    ⟨"entry_region", .defaulted, fun depth =>
      (fun entryRegion s => { s with entryRegion }) <$>
        Json.Reader.named (EntryRegion.all.map fun e => (e.name, e)) depth⟩]

def shape : Json.Shape.OfText Settings where
  title := "struct AppConfig"
  blank := {}
  fields := [⟨"resolver", .defaulted, fun depth =>
    (fun settings _ => settings) <$> resolverShape.reader depth⟩]

def ofText : String → Except Json.ReadError Settings := Json.Reader.whole shape.reader

end Settings

end Mediation
