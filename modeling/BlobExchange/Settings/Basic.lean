import BlobExchange.Buffer.Growth
import BlobExchange.Number.Decimal
/-! # Settings -/

namespace BlobExchange

/-- Why settings are refused: their text could not be read, the factor is not a finite number of at
least one, or the bound on capacity is zero. -/
inductive SettingsFault where
  | unreadable
  | factor (value : Binary64)
  | zeroCapacity
  deriving DecidableEq, Repr

def SettingsFault.message : SettingsFault → String
  | unreadable => "TOML 解析失败"
  | factor value =>
    "growth_factor 必须为不小于 1.0 的有限值，实际为 " ++ value.text Decimal.Layout.plain
  | zeroCapacity => "max_capacity 不得为 0"

structure Settings where
  growth : GrowthPolicy
  idleBudget : Option Nat
  deriving DecidableEq, Repr

namespace Settings

def standard : Settings := ⟨GrowthPolicy.standard, none⟩

def withFactor (s : Settings) (factor : Binary64) : Settings :=
  { s with growth := { s.growth with factor := factor } }

def withMaxCapacity (s : Settings) (bound : Nat) : Settings :=
  { s with growth := { s.growth with maxCapacity := some bound } }

def withIdleBudget (s : Settings) (budget : Nat) : Settings :=
  { s with idleBudget := some budget }

def fault? (s : Settings) : Option SettingsFault :=
  if !s.growth.factor.isFiniteAtLeastOne then some (.factor s.growth.factor)
  else if s.growth.maxCapacity = some 0 then some .zeroCapacity
  else none

/-- Equality of settings, their factors compared as numbers. -/
def same (s t : Settings) : Bool := s.growth.same t.growth && s.idleBudget == t.idleBudget

end Settings

end BlobExchange
