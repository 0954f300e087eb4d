import AbiCalls.Proofs.Editions
import AbiCalls.Proofs.SideBySideWatches
import AbiCalls.Proofs.WholeNumbers
import AbiCalls.Settings

namespace AbiCalls

namespace Catalog

variable (catalog : Catalog) (ctx : Context)

end Catalog

namespace Settings

/-- The interval that is set: by an overriding text if there is one, else by the settings, else by default. -/
inductive Sets (s : Settings) : Option String → Interval → Prop
  | overridden {text : String} {ms : UInt64} : Denotes text ms.toNat → Sets s (some text) (.ofMillis ms)
  | stated {ms : UInt64} : s.watchInterval = some ms → Sets s none (.ofMillis ms)
  | unstated : s.watchInterval = none → Sets s none defaultInterval

theorem Sets.unique {s : Settings} {override : Option String} {interval other : Interval}
    (h : s.Sets override interval) (h' : s.Sets override other) : interval = other := by
  cases h with
  | overridden denotes =>
    cases h' with
    | overridden denotes' => exact congrArg Interval.ofMillis (UInt64.toNat_inj.mp (denotes.unique denotes'))
  | stated own =>
    cases h' with
    | stated own' => exact congrArg Interval.ofMillis (Option.some.inj (own.symm.trans own'))
    | unstated absent => cases absent.symm.trans own
  | unstated absent =>
    cases h' with
    | stated own => cases absent.symm.trans own
    | unstated => rfl

end Settings

end AbiCalls
