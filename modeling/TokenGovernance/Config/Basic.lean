/-
# Configurations

What an engine is started with: its owner and its first parameters.
-/

import TokenGovernance.Parameters
import TokenGovernance.Account

namespace TokenGovernance

/-- The owner of an engine and the parameters that it starts with. -/
structure Config where
  /-- The account that sets the engine up, and that may cancel any undecided proposal. -/
  owner : Account
  parameters : Parameters := {}
deriving DecidableEq

end TokenGovernance
