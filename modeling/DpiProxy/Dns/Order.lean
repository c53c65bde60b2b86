import DpiProxy.Dns.Exchange
import DpiProxy.Dns.Health
import DpiProxy.Wire.Cursor

namespace DpiProxy.Dns

open Wire

-- A walk over servers that stops at the first usable reply and fails behind the last
-- server.
inductive Walk (order : List Nat) : List (Nat × Bool) → Bool → Prop
  | stops (front : List Nat) (i : Nat) (back : List Nat) (horder : order = front ++ i :: back) :
      Walk order (front.map (·, false) ++ [(i, true)]) true
  | fails : Walk order (order.map (·, false)) false

theorem Walk.cons {order : List Nat} {asked : List (Nat × Bool)} {ok : Bool} (h : Walk order asked ok)
    (idx : Nat) : Walk (idx :: order) ((idx, false) :: asked) ok := by
  cases h with
  | stops front i back horder => exact .stops (idx :: front) i back (by rw [horder]; rfl)
  | fails => exact .fails

theorem Walk.first (idx : Nat) (order : List Nat) : Walk (idx :: order) [(idx, true)] true :=
  .stops [] idx order rfl

theorem Walk.nodup {order : List Nat} {asked : List (Nat × Bool)} {ok : Bool} (h : Walk order asked ok)
    (horder : order.Nodup) : (asked.map Prod.fst).Nodup := by
  cases h with
  | stops front i back hsplit =>
      have hsub : (front ++ [i]).Sublist order := by
        rw [hsplit]
        exact (List.Sublist.refl front).append (List.singleton_sublist.mpr List.mem_cons_self)
      simpa [Function.comp_def] using horder.sublist hsub
  | fails => simpa [Function.comp_def] using horder

section Loops

end Loops

section Step

end Step

section Health

end Health

end DpiProxy.Dns
