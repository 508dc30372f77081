/-
# Starting an engine

An engine is started by the owner that its configuration names, who is then its only owner.
-/

import TokenGovernance.Config.Basic
import TokenGovernance.Engine.Calls

namespace TokenGovernance
namespace Config

/-- The host, with the configured owner as the only one. -/
def ownedHost (c : Config) (host : Host) : Host := { host with isOwner := (· == c.owner) }

/-- The engine that a configuration starts. -/
def start (c : Config) (host : Host) : Except Fault Engine :=
  match (Engine.setUp (c.ownedHost host) c.owner c.parameters).perform {} with
  | (.ok _, engine) => .ok engine
  | (.error why, _) => .error why

end Config
end TokenGovernance
