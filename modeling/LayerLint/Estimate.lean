import LayerLint.Dockerfile
import LayerLint.Command.Manager
import LayerLint.Command.Cleanup
import LayerLint.Command.Package

/-!
# Estimated image size

A rough estimate of the image that the final stage produces: a figure for its base image and one
for each install and each copy, in megabytes. Here commands are searched as they are written, in the
exec form too.
-/

namespace LayerLint

/-- What one instruction adds. -/
structure Contribution where
  line : Nat
  label : Text
  mb : Float

structure Estimate where
  baseImage : Text
  baseMb : Float
  estimatedMb : Float
  breakdown : List Contribution
  recommendations : List Text

namespace Estimate

/-! ## Base images -/

/-- Sizes of well-known images. -/
def knownSizes : List (Text × Float) :=
  [("scratch", 0.0), ("busybox", 4.5), ("alpine", 7.5), ("distroless", 20.0), ("ubuntu", 78.0),
   ("debian", 117.0), ("amazonlinux", 140.0), ("httpd", 150.0), ("redis", 130.0),
   ("nginx", 190.0), ("fedora", 190.0), ("centos", 230.0), ("postgres", 420.0),
   ("openjdk", 470.0), ("eclipse-temurin", 400.0), ("php", 480.0), ("mysql", 560.0),
   ("golang", 800.0), ("ruby", 900.0), ("node", 1000.0), ("python", 1000.0), ("rust", 1400.0)]

/-- The size of an image that is not known. -/
def unknownSize : Float := 100.0

/-- The size of an image by its name without registry and owner. -/
def sizeOfName (name : Text) : Float :=
  ((knownSizes.find? fun (known, _) => known = name).map (·.2)).getD unknownSize

/-- The share of an `alpine` variant, but no less than `alpine` itself. -/
def alpineSize (size : Float) : Float := if size * 0.15 < 7.5 then 7.5 else size * 0.15

def baseImageMb (image : Text) : Float :=
  if image = [] then 0.0
  else if Text.mentions "distroless" image then 20.0
  else
    let size := sizeOfName ((Image.name image).afterLast '/')
    let variant := Image.suffix image
    if Text.mentions "alpine" variant then alpineSize size
    else if Text.mentions "slim" variant then size * 0.35
    else size

def smallVariants : List Text := ["alpine", "slim", "distroless", "scratch", "busybox", "minimal"]

/-- Whether a reference names a small image or a small variant. -/
def isSmallVariant (image : Text) : Bool := smallVariants.any fun v => Text.mentions v image

/-! ## Contributions -/

def skipsDevDependencies (command : Text) : Bool :=
  Text.mentions "--production" command || Text.mentions "--omit=dev" command

/-- What an install of `packages` packages adds. -/
def installMb (m : PackageManager) (command : Text) (packages : Float) : Float :=
  match m with
  | .apt | .yum => 25.0 + 10.0 * packages
  | .apk => 2.0 + 5.0 * packages
  | .npm => if skipsDevDependencies command then 80.0 else 150.0
  | .pip => if Text.mentions " -r " command then 80.0 else 15.0 * packages

/-- What a `RUN` adds, if it installs anything. -/
def runContribution? (i : Instruction) : Option Contribution :=
  let command := i.argsText
  (installManagers command).head?.map fun m =>
    let packages := Float.ofNat (max 1 (installArguments command).length)
    let mb := installMb m command packages
    { line := i.line
      label := Text.concat [m.command, " install"]
      mb := if hasCleanup command then mb * 0.7 else mb }

/-- What a `COPY` or `ADD` adds. -/
def copyContribution (i : Instruction) : Contribution :=
  let (label, mb) : Text × Float :=
    if Text.mentions "node_modules" i.argsText then ("node_modules copied", 200.0)
    else if i.copiesWholeContext then ("build context", 20.0)
    else if i.hasFlag "--from" then ("artifacts from another stage", 30.0)
    else ("files", 1.0)
  { line := i.line, label, mb }

def contribution? (i : Instruction) : Option Contribution :=
  match i.directive with
  | .run => runContribution? i
  | .copy | .add => some (copyContribution i)
  | _ => none

/-! ## Recommendations -/

def installsDevDependencies (i : Instruction) : Bool :=
  i.directive = .run
    && (Text.mentions "npm install" i.argsText || Text.mentions "npm ci" i.argsText)
    && !skipsDevDependencies i.argsText

def installsRecommended (i : Instruction) : Bool :=
  i.directive = .run && (installManagers i.argsText).contains .apt
    && !Text.mentions "--no-install-recommends" i.argsText

/-- The advice, if the condition holds. -/
def adviceIf (condition : Bool) (advice : Text) : List Text := if condition then [advice] else []

def advice (d : Dockerfile) (is : List Instruction) (baseImage : Text)
    (baseMb estimatedMb : Float) : List Text :=
  adviceIf (100.0 < baseMb && !isSmallVariant baseImage)
    (Text.concat ["`", baseImage,
      "` is a full image; a slim or alpine variant is usually several hundred MB smaller."])
  ++ adviceIf (is.any fun i => Text.mentions "node_modules" i.argsText)
    (Text.concat ["node_modules is copied from the build context; add it to .dockerignore and ",
      "install inside the image."])
  ++ adviceIf (is.any installsDevDependencies)
    "Install only production dependencies in the final image (`npm ci --omit=dev`)."
  ++ adviceIf (is.any installsRecommended)
    "Pass `--no-install-recommends` to apt-get install to skip optional packages."
  ++ adviceIf (!d.multiStage && 300.0 < estimatedMb)
    "Use a multi-stage build so build-time dependencies stay out of the final image."

/-- The estimate of a Dockerfile without stages. -/
def empty : Estimate :=
  { baseImage := [], baseMb := 0.0, estimatedMb := 0.0, breakdown := [], recommendations := [] }

/-- The estimate of the image that the final stage produces. -/
def ofDockerfile (d : Dockerfile) : Estimate :=
  match d.finalStage? with
  | none => empty
  | some stage =>
    let is := d.stageInstructions stage
    let baseMb := baseImageMb stage.baseImage
    let breakdown := is.filterMap contribution?
    let estimatedMb := baseMb + breakdown.foldl (fun sum c => sum + c.mb) 0.0
    { baseImage := stage.baseImage
      baseMb
      estimatedMb
      breakdown
      recommendations := advice d is stage.baseImage baseMb estimatedMb }

end Estimate

end LayerLint
