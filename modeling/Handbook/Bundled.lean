import Handbook.Text.Basic

namespace Handbook

def bundledLabel : Text := "<bundled>"

def bundledDefinitions : Text := "# Bundled command documentation.
#
# Each entry maps a command name to a descriptor with any of: cmd, help,
# params, returns, examples.

d1:
  cmd: \"`d1` *pattern*\"
  help: Sends a control pattern to the first connection.
  params:
    pattern:
      help: the control pattern to play
      type: CONTROL_PATTERN
      editable: true
  examples:
    - d1 $ sound \"bd sn\"

hush:
  help: Silences every running pattern.

sound:
  cmd:
    - \"`sound` *name*\"
    - \"`s` *name*\"
  help: Selects a sample by name, optionally with a `:index` suffix.
  params:
    name:
      help: pattern of sample names
      type: CONTROL_PATTERN
      editable: true
  returns: a control pattern
  examples:
    - d1 $ sound \"bd*2 [sn cp]\"
    - d1 $ s \"drum:1 drum:2\"

fast:
  help: Speeds up a pattern by the given factor.
  params:
    amount:
      help: speed-up factor, may itself be patterned
      type: TIME_PATTERN
      editable: true
    pattern: the pattern to speed up
  returns: the sped-up pattern
  examples: d1 $ fast 2 $ s \"bd sn\"

slow:
  help: Slows down a pattern by the given factor.
  params:
    amount:
      help: slow-down factor
      type: TIME_PATTERN
      editable: true
    pattern: the pattern to slow down
  returns: the slowed pattern
  examples: d1 $ slow 2 $ s \"bd sn\"

every:
  help: Applies a function to a pattern once every given number of cycles.
  params:
    n:
      help: cycle interval
      type: RATIONAL_PATTERN
      editable: true
    f:
      help: function to apply
      editable: true
    pattern: the pattern to transform
  examples:
    - d1 $ every 3 (fast 2) $ s \"bd sn\"

every':
  help: Like `every`, but with an offset into the interval.
  params:
    n:
      help: cycle interval
      type: RATIONAL_PATTERN
      editable: true
    o:
      help: cycle offset
      type: RATIONAL_PATTERN
      editable: true
    f:
      help: function to apply
      editable: true
    pattern: the pattern to transform

gain:
  help: Sets the amplitude of each event; 1 is unity.
  params:
    amount:
      help: pattern of gain values
      type: CONTROL_PATTERN
      editable: true
  examples: 'd1 $ s \"bd*8\" # gain \"1 0.8\"'
"

end Handbook
