/-!
# The usage text
-/

namespace Framewise.Command

/-- What `--help` shows. -/
def usage : String :=
"Usage: frame-stats [options] [path...]

Reads stats viewer logs (stdin when no path is given) and prints the
requested views.

Options:
  --print_keys                        print every metric key found
  --timeseries <key>                  time series of a metric (repeatable)
  --commulative_timeseries <key>      cumulative time series (repeatable)
  --hist <key>                        histogram of a metric (repeatable)
  --hist_ratio <first> <second>       histogram of first / second (repeatable)
  --stdev_hist <key> <scale>          histogram around the median, scale stdevs wide
  --plot <x> <y> <mean|median>        y aggregated per distinct x (repeatable)
  --stats <key>                       summary statistics table (repeatable)
  --timeseries_sum                    add a per-frame sum to the time series
  --commulative_timeseries_sum        add a per-frame sum to the cumulative series
  --stats_sum                         add a sum row per source to the stats table
  --begin_frame <n>                   first frame to process (default 0)
  --end_frame <n>                     frame to stop before (default: all)
  --json                              print views as JSON instead of tables
  --serve                             serve keys, frames and views over HTTP
  -h, --help                          show this message
"

end Framewise.Command
