import ClassFile.Layout
import ClassFile.Proofs.Memberwise

/-!
# Acting on layouts in lockstep

What `ClassFile.Decode.Lockstep` and `ClassFile.Decode.Memberwise` are for the readers, they are
for the actions on a layout that was read before: the same steps are taken, but for those that
read the numbers of the layout.
-/

namespace ClassFile.Decode

variable {c d : Context} {P : ∀ {α : Type}, Decode α → Decode α → Prop}

namespace Lockstep

theorem attributeOf (h : Lockstep c d P)
    (hsignature : ∀ site access, P (Decode.signatureAttribute c site access)
      (Decode.signatureAttribute d site access))
    {onCode onCode' : Decode Unit} (hcode : P onCode onCode') (site : Site) (access : Access)
    (raw : RawAttribute) :
    P (attributeOf c onCode site access raw) (attributeOf d onCode' site access raw) := by
  refine h.bind (h.utf8 raw.name) fun name => ?_
  exact h.within (h.attributeBody (fun _ => hsignature site access) fun _ => hcode)

theorem attributesOf (h : Lockstep c d P)
    (hsignature : ∀ site access, P (Decode.signatureAttribute c site access)
      (Decode.signatureAttribute d site access))
    {onCode onCode' : Decode Unit} (hcode : P onCode onCode') (site : Site) (access : Access)
    (raws : List RawAttribute) :
    P (attributesOf c onCode site access raws) (attributesOf d onCode' site access raws) :=
  h.forM raws fun raw _ => h.attributeOf hsignature hcode site access raw

end Lockstep

theorem Asking.memberHeaderOf (h : Asking P) (raw : RawMember) :
    P (Decode.memberHeaderOf raw) (Decode.memberHeaderOf raw) :=
  h.bind (h.utf8 raw.name) fun _ => h.bind (h.utf8 raw.descriptor) fun _ => h.pure _

theorem Heading.interfacesOf (h : Heading c d P) (access : Access) (indices : List UInt16) :
    P (Decode.interfacesOf c access indices) (Decode.interfacesOf d access indices) :=
  h.bind (h.mapM indices fun index _ => h.interfaceAt access index) fun types =>
    h.keepInterfaces types

end ClassFile.Decode
