import ServiceWiring.Proofs.ArgumentText
import ServiceWiring.Proofs.DirectiveLine

/-!
# The arguments of a configuration value

Where the key, the separator and the default of a configuration value come from: from the only
positional value or from the named ones, with their texts as they are written.

* `Arguments.isReadable_of_parse` — the text of every value that was read can stand in its quotes;
* `Directive.keyArgument?`, `Directive.TakenFrom` — the value for the key, and what a directive
  takes from its arguments;
* `Directive.config_of_parse?` — every accepted directive does.
-/

namespace ServiceWiring

namespace Arguments

variable {rest : List Char} {args : Arguments} {a : Argument}

/-- The values of a list of arguments. -/
def values (args : Arguments) : List Argument :=
  args.entries.map (·.2)

/-- The text of every value that was read can stand in its quotes. -/
theorem isReadable_of_parse (h : parse rest = .ok args) (ha : a ∈ args.values) : a.IsReadable := by
  obtain ⟨i, hi, rfl⟩ := List.mem_map.mp ha
  have hspells := (readable_of_parse h).items i hi
  generalize itemText i = text at hspells
  cases hspells with
  | value h _ => exact h
  | keyed _ _ _ h => exact h

theorem mem_values_of_get? {key : String} (h : args.get? key = some a) : a ∈ args.values := by
  unfold get? at h
  split at h
  · rename_i pairs
    obtain ⟨pair, hpair, rfl⟩ := Option.map_eq_some_iff.mp h
    exact List.mem_map.mpr ⟨(some pair.1, pair.2),
      List.mem_map.mpr ⟨pair, List.mem_of_find?_eq_some hpair, rfl⟩, rfl⟩
  · cases h

end Arguments

namespace Directive

open Arguments

variable {body : List Char} {spec : ConfigSpec} {args : Arguments} {a : Argument}

/-- The value for the configuration key: the only positional one, or the one named so. -/
def keyArgument? : Arguments → Option Argument
  | .positional [value] => some value
  | args => args.get? "key"

/-- What an accepted directive takes from its arguments. -/
structure TakenFrom (args : Arguments) (spec : ConfigSpec) : Prop where
  key : (keyArgument? args).map (·.text) = some spec.key
  default : spec.default = args.get? "default"
  separator : spec.separator = ((args.get? "sep").map (·.text)).getD defaultSeparator
  separates : spec.separator.toList ≠ []

theorem takenFrom_of_configSpec (h : configSpec args = .ok spec) : TakenFrom args spec := by
  cases args with
  | none => cases h
  | positional values =>
      -- only a single value is a key
      obtain ⟨key, hkey, h⟩ := bind_eq_ok h
      rw [← Except.ok.inj h]
      match values with
      | [value] =>
          have hseparator : defaultSeparator.toList ≠ [] := by
            decide
          rw [← Except.ok.inj hkey]
          exact ⟨rfl, rfl, rfl, hseparator⟩
      | [] => cases hkey
      | _ :: _ :: _ => cases hkey
  | named pairs =>
      rw [configSpec] at h
      · split at h
        · cases h
        · rename_i key hkey
          obtain ⟨required, -, h⟩ := bind_eq_ok h
          dsimp only at h
          split at h
          · cases h
          · rename_i hseparator
            rw [← Except.ok.inj h]
            exact ⟨hkey, rfl, rfl, by simpa using hseparator⟩
      · intro hnone
        cases hnone
      · intro values hvalues
        cases hvalues

/-- The values of an accepted directive can stand in their quotes, and it takes them from its
    arguments. -/
theorem config_of_parse? (h : parse? body = .ok (some (.config spec, args))) :
    (∀ a ∈ args.values, a.IsReadable) ∧ TakenFrom args spec := by
  refine ⟨fun a ha => isReadable_of_parse (parse?_eq_some_iff.mp h).2.1 ha, ?_⟩
  cases madeFrom_of_parse? h with
  | config _ hspec _ => exact takenFrom_of_configSpec hspec

end Directive

end ServiceWiring
