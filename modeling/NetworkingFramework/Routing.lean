import NetworkingFramework.MultiRecv

/-!
# Routing tables

`abstract/routing/routing_table` and what its two implementations share: a list of rules, each a net mask and a net access to
send through, the search for the rule to use, and the send access made from a table. How a mask is compared with an address
and how long it is are the parameters of the search.

A net access is known by its address; a `shared_ptr` to one is `some` address or null. What its send access returns is a
parameter.
-/

namespace NetworkingFramework

open Wire

/-- `routing_table` with the rules of its implementations. -/
structure RoutingTable (NET_MASK_T : Type) where
  defaultGateway : Option Address
  rules : List (NET_MASK_T × Option Address)

namespace RoutingTable

variable {NET_MASK_T : Type}

/-- A table as it is constructed. -/
def empty : RoutingTable NET_MASK_T := ⟨none, []⟩

/-- `add_routing_rule`. -/
def addRoutingRule (table : RoutingTable NET_MASK_T) (netMask : NET_MASK_T) (netAccess : Option Address) :
    RoutingTable NET_MASK_T :=
  { table with rules := table.rules ++ [(netMask, netAccess)] }

/-- `set_default_gateway`. -/
def setDefaultGateway (table : RoutingTable NET_MASK_T) (netAccess : Option Address) : RoutingTable NET_MASK_T :=
  { table with defaultGateway := netAccess }

/-- The table after rules were added, each to a net access, with or without a default gateway. -/
def build (rules : List (NET_MASK_T × Address)) (gateway : Option Address) : RoutingTable NET_MASK_T :=
  (rules.foldl (fun table rule => table.addRoutingRule rule.1 (some rule.2)) empty).setDefaultGateway gateway

/-- The loop of `impl_find_route` on the rules that are left. -/
def findRouteLoop (isInsideSubnet : NET_MASK_T → Except Fault Bool) (size : NET_MASK_T → Nat) :
    Option NET_MASK_T → Option Address → List (NET_MASK_T × Option Address) → Except Fault (Option Address)
  | _, closestRoute, [] => .ok closestRoute
  | closestSubnet, closestRoute, (subnet, route) :: rules => do
    if ← isInsideSubnet subnet then
      match closestSubnet with
      | none => findRouteLoop isInsideSubnet size (some subnet) route rules
      | some closest =>
        if size subnet > size closest then findRouteLoop isInsideSubnet size (some subnet) route rules
        else findRouteLoop isInsideSubnet size closestSubnet closestRoute rules
    else findRouteLoop isInsideSubnet size closestSubnet closestRoute rules

/-- `find_route`, over an implementation's `impl_find_route`. -/
def findRoute (table : RoutingTable NET_MASK_T) (isInsideSubnet : NET_MASK_T → Except Fault Bool)
    (size : NET_MASK_T → Nat) : Except Fault (Option Address) := do
  match ← findRouteLoop isInsideSubnet size none none table.rules with
  | some route => return some route
  | none => return table.defaultGateway

end RoutingTable

end NetworkingFramework
