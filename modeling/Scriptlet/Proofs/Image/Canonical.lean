import Scriptlet.Engine.Builtin
import Scriptlet.Proofs.Image.Layout

namespace Scriptlet.Image

/-!
# Images are canonical

The images of a module are the bytes that decode to it with nothing left over. They agree but for
the patterns of literals that are no numbers, so a module without such literals has one image. No
image begins with another one.

Lengths are written in eight bytes. A module is addressable if its lengths fit there.
-/

open Code

def AddressableText (s : String) : Prop :=
  (Text.encode s.toList).length < UInt64.size

instance (s : String) : Decidable (AddressableText s) :=
  inferInstanceAs (Decidable (_ < _))

def AddressableLiteral : Literal → Prop
  | .string s => AddressableText s
  | _ => True

structure AddressableMethod (f : Method) : Prop where
  name : AddressableText f.name
  params : f.params.length < UInt64.size
  paramCount : f.paramNames.length < UInt64.size
  paramNames : ∀ s ∈ f.paramNames, AddressableText s
  literalCount : f.literals.size < UInt64.size
  literals : ∀ l ∈ f.literals, AddressableLiteral l
  code : f.code.size < UInt64.size

structure AddressableClass (c : Code.Class) : Prop where
  name : AddressableText c.name
  methodCount : c.methods.size < UInt64.size
  methods : ∀ f ∈ c.methods, AddressableMethod f

structure Addressable (m : Module) : Prop where
  name : AddressableText m.name
  classCount : m.classes.size < UInt64.size
  classes : ∀ c ∈ m.classes, AddressableClass c

/-- A module each of whose numbers is one. -/
def NaNFree (m : Module) : Prop :=
  ∀ c ∈ m.classes, ∀ f ∈ c.methods, ∀ l ∈ f.literals, isNaN l = false

theorem fits_literal_iff {l : Literal} : literalSpelling.Fits l ↔ AddressableLiteral l := by
  cases l <;> exact Iff.rfl

theorem fits_method_iff {f : Method} : methodSpelling.Fits f ↔ AddressableMethod f := by
  constructor
  · rintro ⟨hname, -, -, ⟨hparams, -⟩, ⟨hcount, hnames⟩, -, -, ⟨hliterals, hliteral⟩, hcode, -⟩
    exact ⟨hname, hparams, hcount, hnames, hliterals,
      fun l hl => fits_literal_iff.1 (hliteral l (Array.mem_toList_iff.2 hl)), hcode⟩
  · intro h
    refine ⟨h.name, trivial, trivial, ⟨h.params, fun _ _ => trivial⟩, ⟨h.paramCount, h.paramNames⟩,
      trivial, trivial, ⟨h.literalCount, fun l hl => ?_⟩, h.code, fun _ _ => trivial⟩
    exact fits_literal_iff.2 (h.literals l (Array.mem_toList_iff.1 hl))

theorem fits_class_iff {c : Code.Class} : classSpelling.Fits c ↔ AddressableClass c := by
  constructor
  · rintro ⟨hname, hcount, hmethods⟩
    exact ⟨hname, hcount, fun f hf => fits_method_iff.1 (hmethods f (Array.mem_toList_iff.2 hf))⟩
  · intro h
    refine ⟨h.name, h.methodCount, fun f hf => ?_⟩
    exact fits_method_iff.2 (h.methods f (Array.mem_toList_iff.1 hf))

theorem fits_module_iff {m : Module} : moduleSpelling.Fits m ↔ Addressable m := by
  constructor
  · rintro ⟨hname, hcount, hclasses⟩
    exact ⟨hname, hcount, fun c hc => fits_class_iff.1 (hclasses c (Array.mem_toList_iff.2 hc))⟩
  · intro h
    refine ⟨h.name, h.classCount, fun c hc => ?_⟩
    exact fits_class_iff.2 (h.classes c (Array.mem_toList_iff.1 hc))

theorem plain_module_of_nanFree {m : Module} (h : NaNFree m) : moduleSpelling.Plain m := by
  refine ⟨trivial, fun c hc => ⟨trivial, fun f hf => ?_⟩⟩
  have hliterals : ∀ l ∈ f.literals.toList, literalSpelling.Plain l := fun l hl =>
    h c (Array.mem_toList_iff.1 hc) f (Array.mem_toList_iff.1 hf) l (Array.mem_toList_iff.1 hl)
  exact ⟨trivial, trivial, trivial, fun _ _ => trivial, fun _ _ => trivial, trivial, trivial,
    hliterals, fun _ _ => trivial⟩

/-- An image of a module: the header and a spelling of the module. -/
def IsImage (m : Module) (bytes : List UInt8) : Prop :=
  ∃ body, moduleSpelling.Spells m body ∧ bytes = magic ++ Codec.word16.put version ++ body

theorem isImage_encode {m : Module} (hm : Addressable m) : IsImage m (encode m) :=
  ⟨module.put m, faithful_module.spells_put m (fits_module_iff.2 hm), rfl⟩

theorem IsImage.addressable {m : Module} {bytes : List UInt8} (h : IsImage m bytes) :
    Addressable m := by
  obtain ⟨body, hbody, -⟩ := h
  exact fits_module_iff.1 (faithful_module.fits m body hbody)

theorem IsImage.length_eq {m : Module} {bytes : List UInt8} (h : IsImage m bytes) :
    bytes.length = (encode m).length := by
  obtain ⟨body, hbody, rfl⟩ := h
  have hlength := faithful_module.length_eq m body hbody
  simp only [encode, List.length_append, hlength]

theorem IsImage.eq_encode {m : Module} {bytes : List UInt8} (h : IsImage m bytes)
    (hplain : NaNFree m) : bytes = encode m := by
  obtain ⟨body, hbody, rfl⟩ := h
  rw [faithful_module.eq_put m body hbody (plain_module_of_nanFree hplain), encode]

/-- Only the images of a module decode to it, and whatever stands behind an image is ignored. -/
theorem decode_eq_ok_iff {bytes : List UInt8} {m : Module} :
    decode bytes = .ok m ↔ ∃ front, IsImage m front ∧ front <+: bytes := by
  constructor
  · intro h
    unfold decode at h
    split at h
    · cases h
    split at h
    · cases h
    · next hmagic =>
        have htake : bytes.take magic.length = magic := not_not.1 hmagic
        have hsplit := List.take_append_drop magic.length bytes
        split at h
        · cases h
        · next found body hfound =>
            split at h
            · cases h
            · next hversion =>
                obtain rfl : found = version := not_not.1 hversion
                rw [Codec.exact_word16.get_iff] at hfound
                split at h
                · next m' rest hget =>
                    cases h
                    obtain ⟨front, hfront, rfl⟩ := (faithful_module.get_iff _ _ _).1 hget
                    refine ⟨_, ⟨front, hfront, rfl⟩, rest, ?_⟩
                    rw [← hsplit, htake, hfound, List.append_assoc, List.append_assoc]
                · cases h
  · rintro ⟨_, ⟨front, hfront, rfl⟩, rest, rfl⟩
    have hget : module.get (front ++ rest) = .ok (m, rest) :=
      (faithful_module.get_iff _ _ _).2 ⟨front, hfront, rfl⟩
    have hversion : Codec.word16.get (Codec.word16.put version ++ (front ++ rest)) =
        .ok (version, front ++ rest) := Codec.exact_word16.get_iff.2 rfl
    have hlength :
        ¬(magic ++ (Codec.word16.put version ++ (front ++ rest))).length < headerLength := by
      have hput : (Codec.word16.put version).length = 2 := length_littleEndian 2 _
      simp only [List.length_append, hput, headerLength, magic, List.length_cons, List.length_nil]
      omega
    rw [List.append_assoc, List.append_assoc, decode, if_neg hlength, List.take_left,
      if_neg (not_not.2 rfl), List.drop_left, hversion]
    dsimp only
    rw [if_neg (not_not.2 rfl), hget]

theorem decode_encode_append {m : Module} (hm : Addressable m) (rest : List UInt8) :
    decode (encode m ++ rest) = .ok m :=
  decode_eq_ok_iff.2 ⟨encode m, isImage_encode hm, List.prefix_append _ _⟩

theorem decode_encode {m : Module} (hm : Addressable m) : decode (encode m) = .ok m :=
  decode_eq_ok_iff.2 ⟨encode m, isImage_encode hm, List.prefix_rfl⟩

theorem eq_of_encode_eq {m m' : Module} (hm : Addressable m) (hm' : Addressable m')
    (h : encode m = encode m') : m = m' := by
  have hdecode := decode_encode hm
  rw [h, decode_encode hm'] at hdecode
  exact (Except.ok.inj hdecode).symm

/-- What decodes and is the front of an image is that image. -/
theorem eq_encode_of_decode {m m' : Module} {bytes : List UInt8} (hm : Addressable m)
    (hpre : bytes <+: encode m) (h : decode bytes = .ok m') : bytes = encode m := by
  obtain ⟨front, hfront, hbytes⟩ := decode_eq_ok_iff.1 h
  have hwhole : decode (encode m) = .ok m' :=
    decode_eq_ok_iff.2 ⟨front, hfront, hbytes.trans hpre⟩
  have hsame : m = m' := Except.ok.inj ((decode_encode hm).symm.trans hwhole)
  have hle : (encode m).length ≤ bytes.length :=
    hsame ▸ hfront.length_eq ▸ hbytes.length_le
  exact hpre.eq_of_length_le hle

theorem loadImage_encode {m : Module} (hm : Addressable m) :
    Builtin.loadImage (encode m) =
      (Machine.Program.ofModule m).mapError Machine.ModuleError.message := by
  rw [Builtin.loadImage, decode_encode hm]
  rfl

/-- The image format is a faithful and canonical code. A module without a literal that is no number
decodes from its image only; the images of another one agree in length. -/
theorem canonical_image (m : Module) :
    (Addressable m → ∀ rest, decode (encode m ++ rest) = .ok m) ∧
    (∀ bytes, decode bytes = .ok m → Addressable m ∧ ∃ front, front <+: bytes ∧ IsImage m front ∧
      front.length = (encode m).length ∧ (NaNFree m → front = encode m)) ∧
    (∀ m', Addressable m → Addressable m' → encode m = encode m' → m = m') ∧
    (∀ bytes m', Addressable m → bytes <+: encode m → bytes ≠ encode m →
      decode bytes ≠ .ok m') ∧
    (Addressable m → Builtin.loadImage (encode m) =
      (Machine.Program.ofModule m).mapError Machine.ModuleError.message) := by
  refine ⟨decode_encode_append, fun bytes h => ?_, fun _ hm hm' h => eq_of_encode_eq hm hm' h,
    fun bytes m' hm hpre hne h => hne (eq_encode_of_decode hm hpre h), loadImage_encode⟩
  obtain ⟨front, hfront, hpre⟩ := decode_eq_ok_iff.1 h
  exact ⟨hfront.addressable, front, hpre, hfront, hfront.length_eq, hfront.eq_encode⟩

/-- `static double Half() { return 0.5; }` -/
def halfModule : Module :=
  ⟨"half", #[⟨"Sample", #[⟨"Half", true, true, [], [], .double, 0, #[.double 0.5],
    #[.const 0, .ret]⟩]⟩]⟩

theorem addressable_halfModule : Addressable halfModule := by
  refine ⟨by decide, by decide, fun c hc => ?_⟩
  obtain rfl := List.mem_singleton.1 (Array.mem_toList_iff.2 hc)
  refine ⟨by decide, by decide, fun f hf => ?_⟩
  obtain rfl := List.mem_singleton.1 (Array.mem_toList_iff.2 hf)
  refine ⟨by decide, by decide, by decide, fun s hs => absurd hs (List.not_mem_nil), by decide,
    fun l hl => ?_, by decide⟩
  obtain rfl := List.mem_singleton.1 (Array.mem_toList_iff.2 hl)
  trivial

theorem nanFree_halfModule : NaNFree halfModule := by
  intro c hc f hf l hl
  obtain rfl := List.mem_singleton.1 (Array.mem_toList_iff.2 hc)
  obtain rfl := List.mem_singleton.1 (Array.mem_toList_iff.2 hf)
  obtain rfl := List.mem_singleton.1 (Array.mem_toList_iff.2 hl)
  decide

theorem canonical_image_half :
    Addressable halfModule ∧ NaNFree halfModule ∧
      (∀ rest, decode (encode halfModule ++ rest) = .ok halfModule) ∧
      (∀ bytes, decode bytes = .ok halfModule → encode halfModule <+: bytes) ∧
      decode magic ≠ .ok halfModule := by
  obtain ⟨hdecode, hread, -, hshort, -⟩ := canonical_image halfModule
  have hm := addressable_halfModule
  refine ⟨hm, nanFree_halfModule, hdecode hm, fun bytes h => ?_, ?_⟩
  · obtain ⟨-, front, hpre, -, -, hfront⟩ := hread bytes h
    exact hfront nanFree_halfModule ▸ hpre
  · have hpre : magic <+: encode halfModule :=
      (List.prefix_append magic _).trans (List.prefix_append _ (module.put halfModule))
    refine hshort magic halfModule hm hpre fun h => ?_
    have hlength := congrArg List.length h
    have hput : (Codec.word16.put version).length = 2 := length_littleEndian 2 _
    simp only [encode, List.length_append, hput] at hlength
    omega

end Scriptlet.Image
