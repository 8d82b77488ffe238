import PanelBus.Entity.Basic
/-!
# The configuration of a gateway

A gateway joins one line with the devices on it.
-/

namespace PanelBus

/-- The configuration of a gateway. -/
structure GatewayConfig where
  id : String := ""
  settings : LineSettings := {}
  entities : List Entity := []

end PanelBus
