import LayerLint.Text

/-!
# Directives

The eighteen directives an instruction can start with. Their keywords are read without regard to
letter case and written in capitals.
-/

namespace LayerLint

inductive Directive where
  | from | run | cmd | label | maintainer | expose | env | add | copy | entrypoint | volume
  | user | workdir | arg | onbuild | stopsignal | healthcheck | shell
  deriving DecidableEq, Repr

namespace Directive

def keyword : Directive → Text
  | .from => "FROM"
  | .run => "RUN"
  | .cmd => "CMD"
  | .label => "LABEL"
  | .maintainer => "MAINTAINER"
  | .expose => "EXPOSE"
  | .env => "ENV"
  | .add => "ADD"
  | .copy => "COPY"
  | .entrypoint => "ENTRYPOINT"
  | .volume => "VOLUME"
  | .user => "USER"
  | .workdir => "WORKDIR"
  | .arg => "ARG"
  | .onbuild => "ONBUILD"
  | .stopsignal => "STOPSIGNAL"
  | .healthcheck => "HEALTHCHECK"
  | .shell => "SHELL"

def all : List Directive :=
  [.from, .run, .cmd, .label, .maintainer, .expose, .env, .add, .copy, .entrypoint, .volume,
   .user, .workdir, .arg, .onbuild, .stopsignal, .healthcheck, .shell]

def ofKeyword? (word : Text) : Option Directive :=
  all.find? fun d => Text.sameLetters d.keyword word

end Directive

end LayerLint
